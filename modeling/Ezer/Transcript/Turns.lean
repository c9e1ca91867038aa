import Ezer.Lib.TurnLog
import Ezer.Transcript.Rewind

/-!
# The rewind filter as a log of turns

The rewind filter keeps the survivors and the places where their turns start.
This is the log of turns whose items open turns as the tracker counts them: the
survivors are its items, and the turn starts behind the items up to the turn
before it.
-/

namespace Ezer.Transcript

open Ezer.Lib

section

variable {T : Type*} (classify : T → RewindStep)

/-- What an item does to the log, and the tracker after it. -/
def readItem (tracker : UserRunTurnTracker) (item : T) : LogEvent T × UserRunTurnTracker :=
  match classify item with
  | .rewind target => (.cut target, tracker.onNonUser)
  | .userChunk promptIndex =>
    (.add (tracker.onUserChunk promptIndex).1 item, (tracker.onUserChunk promptIndex).2)
  | .other => (.add false item, tracker.onNonUser)

/-- What the items of a transcript do to the log. -/
def logEvents : UserRunTurnTracker → List T → List (LogEvent T)
  | _, [] => []
  | tracker, item :: items =>
    (readItem classify tracker item).1 :: logEvents (readItem classify tracker item).2 items

/-- The tracker after the items of a transcript. -/
def trackerAfter (tracker : UserRunTurnTracker) (items : List T) : UserRunTurnTracker :=
  items.foldl (fun tracker item => (readItem classify tracker item).2) tracker

/-- The log of a transcript. -/
def turnLog (items : List T) : TurnLog T := TurnLog.empty.run (logEvents classify .new items)

/-- The prompts that the rewind markers of a transcript name. -/
def rewindTargets (items : List T) : List ℕ :=
  items.filterMap fun item =>
    match classify item with
    | .rewind target => some target
    | _ => none

@[simp] theorem trackerAfter_nil (tracker : UserRunTurnTracker) :
    trackerAfter classify tracker [] = tracker := rfl

@[simp] theorem trackerAfter_cons (tracker : UserRunTurnTracker) (item : T) (items : List T) :
    trackerAfter classify tracker (item :: items) =
      trackerAfter classify (readItem classify tracker item).2 items := rfl

theorem trackerAfter_append (tracker : UserRunTurnTracker) (first rest : List T) :
    trackerAfter classify tracker (first ++ rest) =
      trackerAfter classify (trackerAfter classify tracker first) rest := by
  rw [trackerAfter, List.foldl_append]
  rfl

theorem logEvents_append (tracker : UserRunTurnTracker) (first rest : List T) :
    logEvents classify tracker (first ++ rest) =
      logEvents classify tracker first ++
        logEvents classify (trackerAfter classify tracker first) rest := by
  induction first generalizing tracker with
  | nil => rfl
  | cons item first ih => simp [logEvents, ih]

/-- The log is cut back to the turns that the markers name. -/
theorem cuts_logEvents (tracker : UserRunTurnTracker) (items : List T) :
    cuts (logEvents classify tracker items) = rewindTargets classify items := by
  induction items generalizing tracker with
  | nil => rfl
  | cons item items ih =>
    rw [logEvents, rewindTargets, readItem]
    cases hitem : classify item with
    | rewind | userChunk | other => simp [hitem, ih, rewindTargets]

theorem turnLog_append (first rest : List T) :
    turnLog classify (first ++ rest) =
      (turnLog classify first).run
        (logEvents classify (trackerAfter classify .new first) rest) := by
  rw [turnLog, logEvents_append, TurnLog.run_append]
  rfl

theorem turnLog_concat (items : List T) (item : T) :
    turnLog classify (items ++ [item]) =
      (turnLog classify items).step
        (readItem classify (trackerAfter classify .new items) item).1 := by
  rw [turnLog_append]
  rfl

/-- The state of the rewind filter shows a log. -/
structure RewindFilter.Shows (filter : RewindFilter T) (log : TurnLog T) : Prop where
  result : filter.result = log.items
  promptStarts : filter.promptStarts = (List.range log.turns).map log.upTo

variable {classify}

/-- An item that opens a turn adds its place to the turn starts. -/
theorem turnStarts_add (log : TurnLog T) (opens : Bool) (item : T) :
    (List.range (log.add opens item).turns).map (log.add opens item).upTo =
      if opens then (List.range log.turns).map log.upTo ++ [log.items.length]
      else (List.range log.turns).map log.upTo := by
  have hold : (List.range log.turns).map (log.add opens item).upTo =
      (List.range log.turns).map log.upTo := by
    apply List.map_congr_left
    intro turn hturn
    rw [List.mem_range] at hturn
    exact log.upTo_add item (Nat.lt_add_right _ hturn)
  rw [TurnLog.turns_add]
  cases opens with
  | false => exact hold
  | true =>
    rw [Bool.toNat_true, List.range_succ, List.map_append, hold, List.map_singleton,
      log.upTo_add item (by simp), TurnLog.upTo_of_le le_rfl, if_pos rfl]

theorem RewindFilter.Shows.step {filter : RewindFilter T} {log : TurnLog T} (h : filter.Shows log)
    (item : T) :
    (filter.step classify item).Shows (log.step (readItem classify filter.tracker item).1) := by
  rw [RewindFilter.step, readItem]
  cases classify item with
  | rewind target =>
    have hcut : filter.promptStarts[target]?.getD filter.result.length = log.upTo target := by
      rw [h.promptStarts, h.result]
      by_cases htarget : target < log.turns
      · simp [htarget]
      · rw [TurnLog.upTo_of_le (Nat.le_of_not_lt htarget), List.getElem?_eq_none (by simpa using htarget)]
        rfl
    constructor
    · dsimp only
      rw [hcut, h.result, TurnLog.step, TurnLog.items_cut]
    · dsimp only
      rw [h.promptStarts, TurnLog.step, TurnLog.turns_cut, ← List.map_take, List.take_range,
        Nat.min_comm]
      apply List.map_congr_left
      intro turn hturn
      rw [List.mem_range] at hturn
      exact (log.upTo_cut (by omega)).symm
  | userChunk promptIndex =>
    constructor
    · dsimp only
      rw [h.result, TurnLog.step, TurnLog.items_add]
    · dsimp only
      rw [TurnLog.step, turnStarts_add, h.promptStarts, h.result]
  | other =>
    constructor
    · dsimp only
      rw [h.result, TurnLog.step, TurnLog.items_add]
    · dsimp only
      rw [TurnLog.step, turnStarts_add, h.promptStarts, if_neg Bool.false_ne_true]

theorem RewindFilter.tracker_step (filter : RewindFilter T) (item : T) :
    (filter.step classify item).tracker = (readItem classify filter.tracker item).2 := by
  rw [RewindFilter.step, readItem]
  cases classify item <;> rfl

/-- The rewind filter reads a transcript as its log. -/
theorem RewindFilter.Shows.run {filter : RewindFilter T} {log : TurnLog T} (h : filter.Shows log)
    (items : List T) :
    (filter.run classify items).Shows (log.run (logEvents classify filter.tracker items)) ∧
      (filter.run classify items).tracker = trackerAfter classify filter.tracker items := by
  induction items generalizing filter log with
  | nil => exact ⟨h, rfl⟩
  | cons item items ih =>
    rw [RewindFilter.run, List.foldl_cons, logEvents, TurnLog.run_cons, trackerAfter_cons,
      ← RewindFilter.tracker_step]
    exact ih (h.step item)

theorem RewindFilter.shows_new : (RewindFilter.new : RewindFilter T).Shows .empty :=
  ⟨rfl, rfl⟩

variable (classify)

/-- The filter after a transcript shows its log. -/
theorem shows_turnLog (items : List T) :
    (RewindFilter.run classify .new items).Shows (turnLog classify items) :=
  (RewindFilter.shows_new.run items).1

theorem tracker_run (items : List T) :
    (RewindFilter.run classify .new items).tracker = trackerAfter classify .new items :=
  (RewindFilter.shows_new.run items).2

/-- The survivors are the items of the log. -/
theorem filterRewindBy_eq_items (items : List T) :
    filterRewindBy classify items = (turnLog classify items).items :=
  (shows_turnLog classify items).result

theorem filterRewindBy_eq_survivors (items : List T) :
    filterRewindBy classify items = TurnLog.survivors 0 (logEvents classify .new items) := by
  rw [filterRewindBy_eq_items, turnLog, TurnLog.items_run_empty]

/-- The number of turns that the filter has counted. -/
theorem length_promptStarts (items : List T) :
    (RewindFilter.run classify .new items).promptStarts.length = (turnLog classify items).turns := by
  rw [(shows_turnLog classify items).promptStarts, List.length_map, List.length_range]

/-- A marker at the end keeps the items up to its turn. -/
theorem filterRewindBy_concat_rewind (items : List T) {marker : T} {target : ℕ}
    (hmarker : classify marker = .rewind target) :
    filterRewindBy classify (items ++ [marker]) =
      (filterRewindBy classify items).take ((turnLog classify items).upTo target) := by
  rw [filterRewindBy_eq_items, filterRewindBy_eq_items, turnLog_concat, readItem, hmarker]
  exact TurnLog.items_cut _ _

/-- A transcript without markers. -/
def Unmarked (items : List T) : Prop := ∀ item ∈ items, ∀ target, classify item ≠ .rewind target

variable {classify}

theorem Unmarked.rewindTargets {items : List T} (h : Unmarked classify items) :
    rewindTargets classify items = [] := by
  rw [Transcript.rewindTargets, List.filterMap_eq_nil_iff]
  intro item hitem
  cases hclass : classify item with
  | rewind target => exact absurd hclass (h item hitem target)
  | userChunk promptIndex => rfl
  | other => rfl

theorem truncateLoop_eq (targetPromptIndex : ℕ) {items : List T} (h : Unmarked classify items)
    (tracker : UserRunTurnTracker) (log : TurnLog T) (hturns : log.turns ≤ targetPromptIndex + 1) :
    truncateLoop classify targetPromptIndex tracker log.turns log.items.length items =
      (log.run (logEvents classify tracker items)).upTo (targetPromptIndex + 1) := by
  induction items generalizing tracker log with
  | nil => exact (TurnLog.upTo_of_le hturns).symm
  | cons item items ih =>
    have hrest : Unmarked classify items := fun other hother => h other (List.mem_cons_of_mem _ hother)
    have hadd : ∀ opens, (log.add opens item).items.length = log.items.length + 1 := by simp
    rw [truncateLoop, logEvents, TurnLog.run_cons, readItem]
    cases hclass : classify item with
    | rewind target => exact absurd hclass (h item List.mem_cons_self target)
    | userChunk promptIndex =>
      dsimp only
      cases hcounted : (tracker.onUserChunk promptIndex).1 with
      | false =>
        have hnext := ih hrest (tracker.onUserChunk promptIndex).2 (log.add false item) hturns
        rw [hadd] at hnext
        exact hnext
      | true =>
        rw [if_pos rfl]
        by_cases hlast : log.turns + 1 > targetPromptIndex + 1
        · have hcuts : cuts (logEvents classify (tracker.onUserChunk promptIndex).2 items) = [] := by
            rw [cuts_logEvents, hrest.rewindTargets]
          rw [if_pos hlast, TurnLog.step, TurnLog.upTo_run hcuts hlast,
            log.upTo_add item hlast, TurnLog.upTo_of_le hturns]
        · rw [if_neg hlast]
          have hnext := ih hrest (tracker.onUserChunk promptIndex).2 (log.add true item)
            (Nat.le_of_not_lt hlast)
          rw [hadd] at hnext
          exact hnext
    | other =>
      have hnext := ih hrest tracker.onNonUser (log.add false item) hturns
      rw [hadd] at hnext
      exact hnext

theorem truncateForPromptBy_eq {items : List T} (h : Unmarked classify items)
    (targetPromptIndex : ℕ) :
    truncateForPromptBy classify items targetPromptIndex =
      (turnLog classify items).upTo (targetPromptIndex + 1) :=
  truncateLoop_eq targetPromptIndex h .new .empty (Nat.zero_le _)

variable (classify) in
/-- The number of turns that the filter counts in a transcript. -/
def turnCount (items : List T) : ℕ := (RewindFilter.run classify .new items).promptStarts.length

theorem turnCount_eq (items : List T) : turnCount classify items = (turnLog classify items).turns :=
  length_promptStarts classify items

variable (classify) in
/-- The items of the second part of a transcript that survive it. -/
def survivorsBehind (first rest : List T) : List T :=
  TurnLog.survivors (turnCount classify first)
    (logEvents classify (trackerAfter classify .new first) rest)

theorem survivorsBehind_nil (items : List T) :
    survivorsBehind classify [] items = filterRewindBy classify items := by
  rw [filterRewindBy_eq_survivors]
  rfl

theorem trackerAfter_concat (items : List T) (item : T) :
    trackerAfter classify .new (items ++ [item]) =
      (readItem classify (trackerAfter classify .new items) item).2 := by
  rw [trackerAfter_append]
  rfl

theorem survivorsBehind_rewind (first : List T) {item : T} {target : ℕ}
    (h : classify item = .rewind target) (rest : List T) :
    survivorsBehind classify first (item :: rest) =
      survivorsBehind classify (first ++ [item]) rest := by
  have hturns : turnCount classify (first ++ [item]) = min (turnCount classify first) target := by
    rw [turnCount_eq, turnCount_eq, turnLog_concat, readItem, h]
    rfl
  rw [survivorsBehind, survivorsBehind, hturns, trackerAfter_concat, logEvents]
  simp only [readItem, h, TurnLog.survivors]

/-- An item survives when every later marker names its turn or a later one. -/
theorem survivorsBehind_cons (first : List T) {item : T}
    (h : ∀ target, classify item ≠ .rewind target) (rest : List T) :
    survivorsBehind classify first (item :: rest) =
      if ∀ target ∈ rewindTargets classify rest, turnCount classify (first ++ [item]) ≤ target then
        item :: survivorsBehind classify (first ++ [item]) rest
      else survivorsBehind classify (first ++ [item]) rest := by
  obtain ⟨opens, hread⟩ : ∃ opens,
      (readItem classify (trackerAfter classify .new first) item).1 = .add opens item := by
    rw [readItem]
    cases hclass : classify item with
    | rewind target => exact absurd hclass (h target)
    | userChunk promptIndex => exact ⟨_, rfl⟩
    | other => exact ⟨_, rfl⟩
  have hturns : turnCount classify (first ++ [item]) = turnCount classify first + opens.toNat := by
    rw [turnCount_eq, turnCount_eq, turnLog_concat, hread]
    rfl
  rw [survivorsBehind, survivorsBehind, hturns, trackerAfter_concat, logEvents, hread,
    TurnLog.survivors, cuts_logEvents]

/-- No marker survives. -/
theorem unmarked_filterRewindBy (items : List T) :
    Unmarked classify (filterRewindBy classify items) := by
  induction items using List.reverseRecOn with
  | nil => exact fun item hitem => absurd hitem (by simp [filterRewindBy, RewindFilter.run, RewindFilter.new])
  | append_singleton items item ih =>
    rw [filterRewindBy_eq_items] at ih ⊢
    rw [turnLog_concat, readItem]
    cases hclass : classify item with
    | rewind target =>
      intro other hother
      rw [TurnLog.step, TurnLog.items_cut] at hother
      exact ih other (List.mem_of_mem_take hother)
    | userChunk | other =>
      intro other hother target
      rw [TurnLog.step, TurnLog.items_add, List.mem_append, List.mem_singleton] at hother
      rcases hother with hother | rfl
      · exact ih other hother target
      · simp [hclass]

end

/-- What holds at every place of a list holds of every item and the items before it. -/
theorem forall_prefix_concat {T : Type*} {P : List T → T → Prop} {items : List T}
    (h : ∀ (i : ℕ) (hi : i < items.length), P (items.take i) items[i]) :
    ∀ pre item, pre ++ [item] <+: items → P pre item := by
  rintro pre item ⟨rest, rfl⟩
  have hi : pre.length < (pre ++ [item] ++ rest).length := by simp
  have hat := h pre.length hi
  simpa using hat

end Ezer.Transcript
