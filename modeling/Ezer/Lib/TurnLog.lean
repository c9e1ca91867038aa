import Mathlib.Data.List.Infix

/-!
# Logs that are cut back to a turn

Items are added to a log, some of them open a turn, and a cut removes every item
after some turn. An item keeps the number of the turn it was added in, so a cut
removes the items of a greater number, and an item survives exactly when no
later cut names a smaller turn.
-/

namespace Ezer.Lib

/-- What happens to a log: an item is added, which may open a turn, or the log is cut. -/
inductive LogEvent (α : Type*) where
  | add (opens : Bool) (item : α)
  | cut (turn : ℕ)

variable {α : Type*}

/-- The turns that the events cut back to. -/
def cuts (events : List (LogEvent α)) : List ℕ :=
  events.filterMap fun
    | .add _ _ => none
    | .cut turn => some turn

@[simp] theorem cuts_nil : cuts ([] : List (LogEvent α)) = [] := rfl

@[simp] theorem cuts_add (opens : Bool) (item : α) (events : List (LogEvent α)) :
    cuts (.add opens item :: events) = cuts events := rfl

@[simp] theorem cuts_cut (turn : ℕ) (events : List (LogEvent α)) :
    cuts (.cut turn :: events) = turn :: cuts events := rfl

/-- A log: the number of its turns, and its items with the number of their turn. -/
@[ext]
structure TurnLog (α : Type*) where
  turns : ℕ
  entries : List (ℕ × α)
  sorted : entries.Pairwise fun a b => a.1 ≤ b.1
  bounded : ∀ entry ∈ entries, entry.1 ≤ turns

namespace TurnLog

/-- The log without items. -/
def empty : TurnLog α := ⟨0, [], .nil, by simp⟩

/-- The items of a log. -/
def items (log : TurnLog α) : List α := log.entries.map Prod.snd

/-- The number of items up to a turn. -/
def upTo (log : TurnLog α) (turn : ℕ) : ℕ := log.entries.countP fun entry => entry.1 ≤ turn

/-- Add an item. -/
def add (log : TurnLog α) (opens : Bool) (item : α) : TurnLog α where
  turns := log.turns + opens.toNat
  entries := log.entries ++ [(log.turns + opens.toNat, item)]
  sorted := by
    rw [List.pairwise_append]
    refine ⟨log.sorted, List.pairwise_singleton _ _, ?_⟩
    intro a ha b hb
    rw [List.mem_singleton] at hb
    subst hb
    exact (log.bounded a ha).trans (Nat.le_add_right _ _)
  bounded := by
    intro entry hentry
    rw [List.mem_append, List.mem_singleton] at hentry
    rcases hentry with hentry | rfl
    · exact (log.bounded entry hentry).trans (Nat.le_add_right _ _)
    · exact le_rfl

/-- Remove every item after a turn. -/
def cut (log : TurnLog α) (turn : ℕ) : TurnLog α where
  turns := min log.turns turn
  entries := log.entries.filter fun entry => entry.1 ≤ turn
  sorted := log.sorted.filter _
  bounded := by
    intro entry hentry
    obtain ⟨hmem, hle⟩ := List.mem_filter.mp hentry
    exact le_min (log.bounded entry hmem) (by simpa using hle)

/-- One event. -/
def step (log : TurnLog α) : LogEvent α → TurnLog α
  | .add opens item => log.add opens item
  | .cut turn => log.cut turn

/-- Some events. -/
def run (log : TurnLog α) (events : List (LogEvent α)) : TurnLog α := events.foldl step log

@[simp] theorem turns_add (log : TurnLog α) (opens : Bool) (item : α) :
    (log.add opens item).turns = log.turns + opens.toNat := rfl

@[simp] theorem entries_add (log : TurnLog α) (opens : Bool) (item : α) :
    (log.add opens item).entries = log.entries ++ [(log.turns + opens.toNat, item)] := rfl

@[simp] theorem turns_cut (log : TurnLog α) (turn : ℕ) :
    (log.cut turn).turns = min log.turns turn := rfl

@[simp] theorem entries_cut (log : TurnLog α) (turn : ℕ) :
    (log.cut turn).entries = log.entries.filter fun entry => entry.1 ≤ turn := rfl

@[simp] theorem items_add (log : TurnLog α) (opens : Bool) (item : α) :
    (log.add opens item).items = log.items ++ [item] := by
  simp [items]

@[simp] theorem length_items (log : TurnLog α) : log.items.length = log.entries.length :=
  List.length_map _

@[simp] theorem run_nil (log : TurnLog α) : log.run [] = log := rfl

@[simp] theorem run_cons (log : TurnLog α) (event : LogEvent α) (events : List (LogEvent α)) :
    log.run (event :: events) = (log.step event).run events := rfl

theorem run_append (log : TurnLog α) (first rest : List (LogEvent α)) :
    log.run (first ++ rest) = (log.run first).run rest := by
  rw [run, List.foldl_append]
  rfl

/-- The items up to a turn stand at the front. -/
theorem filter_eq_take {entries : List (ℕ × α)} (h : entries.Pairwise fun a b => a.1 ≤ b.1)
    (turn : ℕ) : entries.filter (fun entry => entry.1 ≤ turn) =
      entries.take (entries.countP fun entry => entry.1 ≤ turn) := by
  induction entries with
  | nil => rfl
  | cons entry entries ih =>
    rw [List.pairwise_cons] at h
    by_cases hentry : entry.1 ≤ turn
    · rw [List.filter_cons_of_pos (by simpa using hentry),
        List.countP_cons_of_pos (by simpa using hentry), List.take_succ_cons, ih h.2]
    · have hrest : ∀ other ∈ entries, ¬ other.1 ≤ turn := fun other hother hle =>
        hentry ((h.1 other hother).trans hle)
      rw [List.filter_cons_of_neg (by simpa using hentry),
        List.countP_cons_of_neg (by simpa using hentry),
        List.filter_eq_nil_iff.mpr (by simpa using hrest),
        List.countP_eq_zero.mpr (by simpa using hrest), List.take_zero]

theorem lt_countP {entries : List (ℕ × α)} (h : entries.Pairwise fun a b => a.1 ≤ b.1)
    {i turn : ℕ} {entry : ℕ × α} (hentry : entries[i]? = some entry) (hle : entry.1 ≤ turn) :
    i < entries.countP fun entry => entry.1 ≤ turn := by
  induction entries generalizing i with
  | nil => simp at hentry
  | cons first entries ih =>
    rw [List.pairwise_cons] at h
    have hfirst : first.1 ≤ turn := by
      cases i with
      | zero =>
        rw [List.getElem?_cons_zero, Option.some.injEq] at hentry
        rwa [hentry]
      | succ i =>
        rw [List.getElem?_cons_succ] at hentry
        exact (h.1 entry (List.mem_of_getElem? hentry)).trans hle
    rw [List.countP_cons_of_pos (by simpa using hfirst)]
    cases i with
    | zero => exact Nat.succ_pos _
    | succ i =>
      rw [List.getElem?_cons_succ] at hentry
      exact Nat.succ_lt_succ (ih h.2 hentry)

/-- An item of some turn stands before the place of a later turn. -/
theorem lt_upTo {log : TurnLog α} {i turn : ℕ} {entry : ℕ × α}
    (hentry : log.entries[i]? = some entry) (hle : entry.1 ≤ turn) : i < log.upTo turn :=
  lt_countP log.sorted hentry hle

/-- A cut keeps the items up to its turn. -/
theorem items_cut (log : TurnLog α) (turn : ℕ) :
    (log.cut turn).items = log.items.take (log.upTo turn) := by
  rw [items, items, upTo, entries_cut, ← List.map_take, ← filter_eq_take log.sorted]

/-- A cut beyond the last turn changes nothing. -/
theorem cut_of_le {log : TurnLog α} {turn : ℕ} (h : log.turns ≤ turn) : log.cut turn = log := by
  have hall : ∀ entry ∈ log.entries, entry.1 ≤ turn := fun entry hentry =>
    (log.bounded entry hentry).trans h
  apply TurnLog.ext
  · exact Nat.min_eq_left h
  · exact List.filter_eq_self.mpr (by simpa using hall)

/-- A cut removes an item of a later turn again. -/
theorem cut_add (log : TurnLog α) {opens : Bool} (item : α) {turn : ℕ}
    (h : turn < log.turns + opens.toNat) : (log.add opens item).cut turn = log.cut turn := by
  have hopens := opens.toNat_le
  apply TurnLog.ext
  · rw [turns_cut, turns_cut, turns_add]
    omega
  · simp [h]

theorem upTo_le_length (log : TurnLog α) (turn : ℕ) : log.upTo turn ≤ log.items.length := by
  rw [length_items]
  exact List.countP_le_length

theorem upTo_of_le {log : TurnLog α} {turn : ℕ} (h : log.turns ≤ turn) :
    log.upTo turn = log.items.length := by
  rw [upTo, length_items, List.countP_eq_length]
  intro entry hentry
  simpa using (log.bounded entry hentry).trans h

/-- An item that is added belongs to a later turn than the items counted before. -/
theorem upTo_add (log : TurnLog α) {opens : Bool} (item : α) {turn : ℕ}
    (h : turn < log.turns + opens.toNat) : (log.add opens item).upTo turn = log.upTo turn := by
  simp [upTo, h]

theorem upTo_add_eq (log : TurnLog α) (opens : Bool) (item : α) (turn : ℕ) :
    (log.add opens item).upTo turn =
      log.upTo turn + if log.turns + opens.toNat ≤ turn then 1 else 0 := by
  simp [upTo, List.countP_singleton]

theorem upTo_cut (log : TurnLog α) {turn target : ℕ} (h : turn ≤ target) :
    (log.cut target).upTo turn = log.upTo turn := by
  rw [upTo, upTo, entries_cut, List.countP_filter]
  apply List.countP_congr
  intro entry _
  simp only [Bool.and_eq_true, decide_eq_true_eq]
  constructor
  · exact And.left
  · intro hle
    exact ⟨hle, hle.trans h⟩

/-- Without cuts, the items up to a turn that is over stay what they are. -/
theorem upTo_run {log : TurnLog α} {turn : ℕ} {events : List (LogEvent α)}
    (hcuts : cuts events = []) (h : turn < log.turns) :
    (log.run events).upTo turn = log.upTo turn := by
  induction events generalizing log with
  | nil => rfl
  | cons event events ih =>
    cases event with
    | add opens item =>
      have hturns : turn < log.turns + opens.toNat := Nat.lt_add_right _ h
      rw [run_cons, step, ih hcuts hturns, upTo_add log item hturns]
    | cut target => simp at hcuts

/-- The items that survive all later cuts, with the number of turns before the events. -/
def survivors : ℕ → List (LogEvent α) → List α
  | _, [] => []
  | turns, .add opens item :: events =>
    if ∀ turn ∈ cuts events, turns + opens.toNat ≤ turn then
      item :: survivors (turns + opens.toNat) events
    else survivors (turns + opens.toNat) events
  | turns, .cut turn :: events => survivors (min turns turn) events

theorem items_run (log : TurnLog α) (events : List (LogEvent α)) :
    (log.run events).items =
      (log.entries.filter fun entry => (cuts events).all (entry.1 ≤ ·)).map Prod.snd ++
        survivors log.turns events := by
  induction events generalizing log with
  | nil => simp [items, survivors]
  | cons event events ih =>
    rw [run_cons, ih]
    cases event with
    | add opens item =>
      rw [step, entries_add, turns_add, survivors, cuts_add]
      split <;> simp_all
    | cut turn =>
      rw [step, entries_cut, turns_cut, survivors, cuts_cut, List.filter_filter]
      simp only [List.all_cons, Bool.and_comm]

/-- A log that starts empty holds the items that survive. -/
theorem items_run_empty (events : List (LogEvent α)) :
    ((empty : TurnLog α).run events).items = survivors 0 events := by
  simp [items_run, empty]

end TurnLog

end Ezer.Lib
