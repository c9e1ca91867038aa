import Ezer.Transcript.Runs

/-!
# Rewinds and the prompts they name

The chunks of a prompt carry the number of prompts alive when it was sent. A
rewind names a prompt, and should keep what was written before the first chunk
of this prompt. The filter counts runs of chunks instead, so it misses the
prompt when a prompt before it was written in several runs.
-/

namespace Ezer.Transcript

open Ezer.Lib

section

variable {T : Type*} (classify : T → RewindStep)

/-- What a transcript says about the prompts of its session. -/
structure SentPrompts (T : Type*) where
  /-- The items that are not rewound. -/
  live : List T
  /-- The number of live prompts. -/
  alive : ℕ
  /-- The prompt of the chunk that was written last. -/
  current : Option ℕ
  /-- The first live prompt with a chunk that does not follow a chunk of this prompt. -/
  interrupted : Option ℕ

namespace SentPrompts

/-- Before the first item no prompt was sent. -/
def new : SentPrompts T := ⟨[], 0, none, none⟩

/-- The items before the first chunk of a prompt. -/
def before (prompts : SentPrompts T) (promptIndex : ℕ) : List T :=
  prompts.live.takeWhile fun item => classify item ≠ .userChunk (some promptIndex)

/-- Read one item. -/
def step (prompts : SentPrompts T) (item : T) : SentPrompts T :=
  match classify item with
  | .rewind target =>
    { live := prompts.before classify target
      alive := target
      current := none
      interrupted := prompts.interrupted.filter (· < target) }
  | .userChunk (some promptIndex) =>
    { live := prompts.live ++ [item]
      alive := if promptIndex = prompts.alive then prompts.alive + 1 else prompts.alive
      current := some promptIndex
      interrupted :=
        if promptIndex = prompts.alive ∨ prompts.current = some promptIndex then prompts.interrupted
        else prompts.interrupted.or (some promptIndex) }
  | .userChunk none | .other => { prompts with live := prompts.live ++ [item], current := none }

/-- What may be written next: a chunk of a new or of the last prompt, an unmarked chunk in a turn,
a rewind to a live prompt or behind the last one, and any other item. -/
def Allows (prompts : SentPrompts T) (item : T) : Prop :=
  match classify item with
  | .rewind target => target ≤ prompts.alive
  | .userChunk (some promptIndex) => promptIndex = prompts.alive ∨ promptIndex + 1 = prompts.alive
  | .userChunk none => 0 < prompts.alive
  | .other => True

end SentPrompts

instance (prompts : SentPrompts T) (item : T) : Decidable (prompts.Allows classify item) := by
  unfold SentPrompts.Allows
  split <;> infer_instance

/-- What a transcript says about its prompts. -/
def sentPrompts (items : List T) : SentPrompts T := items.foldl (SentPrompts.step classify) .new

/-- Every prompt's chunks carry the number of prompts alive when it was sent. -/
def Disciplined (items : List T) : Prop :=
  ∀ pre item, pre ++ [item] <+: items → (sentPrompts classify pre).Allows classify item

/-- A log that opens a turn with the first chunk of every prompt. -/
structure Opened (items : List T) (log : TurnLog T) : Prop where
  live : (sentPrompts classify items).live = log.items
  alive : (sentPrompts classify items).alive = log.turns
  /-- A marked chunk belongs to the turn of its prompt. -/
  chunk : ∀ entry ∈ log.entries, ∀ promptIndex,
    classify entry.2 = .userChunk (some promptIndex) → entry.1 = promptIndex + 1
  /-- The turn of a prompt starts with a chunk of it. -/
  first : ∀ promptIndex < log.turns, ∃ item,
    log.items[log.upTo promptIndex]? = some item ∧ classify item = .userChunk (some promptIndex)
  current : ∀ promptIndex, runIndex classify items = some (some promptIndex) ↔
    (sentPrompts classify items).current = some promptIndex
  current_lt : ∀ promptIndex, (sentPrompts classify items).current = some promptIndex →
    promptIndex < log.turns
  seen : 0 < log.turns → seenMarker classify items = true

/-- How the log of the filter lies to a log of the prompts, with the first interrupted prompt. -/
inductive Counts (log : TurnLog T) : Option ℕ → TurnLog T → Prop
  | exact : Counts log none log
  | interrupted {promptIndex : ℕ} {counted : TurnLog T} (hitems : counted.items = log.items)
      (halive : promptIndex < log.turns) (hmore : log.turns < counted.turns)
      (hbefore : ∀ turn ≤ promptIndex, counted.cut turn = log.cut turn)
      (hbehind : ∀ turn, promptIndex < turn → turn ≤ log.turns → counted.upTo turn < log.upTo turn) :
      Counts log (some promptIndex) counted

theorem sentPrompts_concat (items : List T) (item : T) :
    sentPrompts classify (items ++ [item]) = (sentPrompts classify items).step classify item := by
  rw [sentPrompts, List.foldl_append]
  rfl

variable {classify}

variable {log : TurnLog T}

/-- The items before the first chunk of a prompt are those up to the turn before it. -/
theorem Opened.before_eq {items : List T} (h : Opened classify items log) (promptIndex : ℕ) :
    (sentPrompts classify items).before classify promptIndex = (log.cut promptIndex).items := by
  have hkept : ∀ item ∈ (log.cut promptIndex).items,
      decide (classify item ≠ .userChunk (some promptIndex)) = true := by
    intro item hitem
    obtain ⟨entry, hentry, rfl⟩ := List.mem_map.mp hitem
    obtain ⟨hmem, hle⟩ := List.mem_filter.mp hentry
    rw [decide_eq_true_eq]
    intro hclass
    have hturn := h.chunk entry hmem promptIndex hclass
    simp only [decide_eq_true_eq] at hle
    omega
  rw [SentPrompts.before, h.live, ← List.take_append_drop (log.upTo promptIndex) log.items,
    ← TurnLog.items_cut, List.takeWhile_append_of_pos hkept]
  by_cases hturn : promptIndex < log.turns
  · obtain ⟨item, hitem, hclass⟩ := h.first promptIndex hturn
    have hdrop : (log.items.drop (log.upTo promptIndex)).head? = some item := by
      rw [List.head?_drop, hitem]
    obtain ⟨rest, hrest⟩ := List.head?_eq_some_iff.mp hdrop
    rw [hrest, List.takeWhile_cons_of_neg (by simp [hclass]), List.append_nil]
  · rw [TurnLog.upTo_of_le (Nat.le_of_not_lt hturn), List.drop_length, List.takeWhile_nil,
      List.append_nil]

/-- The turns before an item that is added start where they did. -/
theorem Opened.first_add {items : List T} (h : Opened classify items log)
    (opens : Bool) (item : T) {promptIndex : ℕ} (hturn : promptIndex < log.turns) :
    ∃ other, (log.add opens item).items[(log.add opens item).upTo promptIndex]? = some other ∧
      classify other = .userChunk (some promptIndex) := by
  obtain ⟨other, hother, hclass⟩ := h.first promptIndex hturn
  refine ⟨other, ?_, hclass⟩
  rw [TurnLog.upTo_add log item (Nat.lt_add_right _ hturn), TurnLog.items_add,
    List.getElem?_append_left (List.getElem?_eq_some_iff.mp hother).1, hother]

variable {item : T}

/-- The chunks before an item that is added belong to the turns they did. -/
theorem Opened.chunk_add {items : List T} (h : Opened classify items log) (opens : Bool)
    (hitem : ∀ promptIndex, classify item = .userChunk (some promptIndex) →
      log.turns + opens.toNat = promptIndex + 1) :
    ∀ entry ∈ (log.add opens item).entries, ∀ promptIndex,
      classify entry.2 = .userChunk (some promptIndex) → entry.1 = promptIndex + 1 := by
  intro entry hentry promptIndex hclass
  rw [TurnLog.entries_add, List.mem_append, List.mem_singleton] at hentry
  rcases hentry with hentry | rfl
  · exact h.chunk entry hentry promptIndex hclass
  · exact hitem promptIndex hclass

/-- A chunk of a prompt opens its turn, or belongs to it. -/
theorem Opened.concat_chunk {items : List T} (h : Opened classify items log)
    {opens : Bool} {promptIndex : ℕ}
    (hclass : classify item = .userChunk (some promptIndex))
    (hturns : log.turns + opens.toNat = promptIndex + 1) :
    Opened classify (items ++ [item]) (log.add opens item) := by
  have hstep := sentPrompts_concat classify items item
  rw [SentPrompts.step, hclass] at hstep
  dsimp only at hstep
  constructor
  · rw [hstep, h.live, TurnLog.items_add]
  · rw [hstep, h.alive, TurnLog.turns_add]
    cases opens with
    | false => rw [if_neg (by simp only [Bool.toNat_false] at hturns; omega)]; rfl
    | true => rw [if_pos (by simp only [Bool.toNat_true] at hturns; omega)]; rfl
  · apply h.chunk_add
    intro other hindex
    rw [hclass] at hindex
    cases hindex
    exact hturns
  · intro other hturn
    rw [TurnLog.turns_add, hturns, Nat.lt_succ_iff_lt_or_eq] at hturn
    by_cases hlt : other < log.turns
    · exact h.first_add opens item hlt
    · obtain rfl : opens = true := by
        cases opens with
        | true => rfl
        | false => simp only [Bool.toNat_false] at hturns; omega
      have hother : other = log.turns := by simp only [Bool.toNat_true] at hturns; omega
      subst hother
      refine ⟨item, ?_, ?_⟩
      · rw [TurnLog.upTo_add log item (by simp), TurnLog.upTo_of_le le_rfl, TurnLog.items_add]
        simp
      · rw [hclass, Nat.succ.inj hturns]
  · intro other
    rw [runIndex_concat, hclass, hstep]
    simp
  · intro other hcurrent
    rw [hstep] at hcurrent
    simp only [Option.some.injEq] at hcurrent
    rw [TurnLog.turns_add, hturns, ← hcurrent]
    exact Nat.lt_succ_self _
  · intro _
    rw [seenMarker_concat, hclass]
    simp [RewindStep.isMarked]

/-- Any other item belongs to the last turn. -/
theorem Opened.concat_plain {items : List T} (h : Opened classify items log)
    (hclass : classify item = .userChunk none ∨ classify item = .other) :
    Opened classify (items ++ [item]) (log.add false item) := by
  have hstep : sentPrompts classify (items ++ [item]) =
      { sentPrompts classify items with
        live := (sentPrompts classify items).live ++ [item], current := none } := by
    rw [sentPrompts_concat, SentPrompts.step]
    rcases hclass with hclass | hclass <;> rw [hclass]
  constructor
  · rw [hstep, h.live, TurnLog.items_add]
  · rw [hstep, h.alive, TurnLog.turns_add, Bool.toNat_false, Nat.add_zero]
  · apply h.chunk_add
    intro promptIndex hindex
    rcases hclass with hclass | hclass <;> simp [hclass] at hindex
  · intro promptIndex hturn
    exact h.first_add false item hturn
  · intro promptIndex
    rw [runIndex_concat, hstep]
    rcases hclass with hclass | hclass <;> simp [hclass]
  · intro promptIndex hcurrent
    rw [hstep] at hcurrent
    cases hcurrent
  · intro hpos
    rw [seenMarker_concat, h.seen hpos, Bool.true_or]

/-- A rewind cuts the turn of its prompt. -/
theorem Opened.concat_rewind {items : List T} (h : Opened classify items log)
    {target : ℕ} (hclass : classify item = .rewind target) (htarget : target ≤ log.turns) :
    Opened classify (items ++ [item]) (log.cut target) := by
  have hstep := sentPrompts_concat classify items item
  rw [SentPrompts.step, hclass] at hstep
  dsimp only at hstep
  rw [h.before_eq] at hstep
  constructor
  · rw [hstep]
  · rw [hstep, TurnLog.turns_cut, Nat.min_eq_right htarget]
  · intro entry hentry promptIndex hindex
    exact h.chunk entry (List.mem_of_mem_filter hentry) promptIndex hindex
  · intro promptIndex hturn
    rw [TurnLog.turns_cut, Nat.min_eq_right htarget] at hturn
    obtain ⟨other, hother, hindex⟩ := h.first promptIndex (hturn.trans_le htarget)
    refine ⟨other, ?_, hindex⟩
    obtain ⟨entry, hentry, rfl⟩ : ∃ entry, log.entries[log.upTo promptIndex]? = some entry ∧
        entry.2 = other := by simpa [TurnLog.items] using hother
    have hle : entry.1 ≤ target := by
      rw [h.chunk entry (List.mem_of_getElem? hentry) promptIndex hindex]
      exact hturn
    have hlt : log.upTo promptIndex < log.upTo target := TurnLog.lt_upTo hentry hle
    rw [TurnLog.upTo_cut log hturn.le, TurnLog.items_cut, List.getElem?_take, if_pos hlt, hother]
  · intro promptIndex
    rw [runIndex_concat, hclass, hstep]
    simp
  · intro promptIndex hcurrent
    rw [hstep] at hcurrent
    cases hcurrent
  · intro hpos
    rw [TurnLog.turns_cut] at hpos
    rw [seenMarker_concat, h.seen (by omega), Bool.true_or]

/-- The counted log grows with the other, when it opens a turn where the other does. -/
theorem Counts.add {counted : TurnLog T} {interrupted : Option ℕ}
    (h : Counts log interrupted counted) (opens more : Bool) (hmore : opens = true → more = true)
    (hpos : opens ≠ more → 0 < log.turns) (item : T) :
    Counts (log.add opens item)
      (if opens = more then interrupted else interrupted.or (some (log.turns - 1)))
      (counted.add more item) := by
  have hopens := opens.toNat_le
  have hle : opens.toNat ≤ more.toNat := by
    cases opens with
    | false => exact Nat.zero_le _
    | true => rw [hmore rfl]
  cases h with
  | exact =>
    by_cases hsame : opens = more
    · rw [if_pos hsame, hsame]
      exact .exact
    · have hlog := hpos hsame
      have hfalse : opens = false ∧ more = true := by
        cases opens <;> cases more <;> simp_all
      rw [if_neg hsame, hfalse.1, hfalse.2, Option.none_or]
      refine .interrupted (by simp) ?_ ?_ ?_ ?_
      · rw [TurnLog.turns_add]
        omega
      · simp
      · intro turn hturn
        rw [TurnLog.cut_add log item (by omega), TurnLog.cut_add log item (by omega)]
      · intro turn hbehind hturn
        rw [TurnLog.turns_add, Bool.toNat_false] at hturn
        have hlast : turn = log.turns := by omega
        subst hlast
        have hcounted : (log.add true item).upTo log.turns = log.upTo log.turns :=
          log.upTo_add item (by simp)
        rw [hcounted, TurnLog.upTo_add_eq, if_pos (by simp)]
        exact Nat.lt_succ_self _
  | @interrupted promptIndex _ hitems halive hturns hbefore hbehind =>
    rw [Option.some_or, ite_self]
    refine .interrupted (by simp [hitems]) ?_ ?_ ?_ ?_
    · rw [TurnLog.turns_add]
      omega
    · rw [TurnLog.turns_add, TurnLog.turns_add]
      omega
    · intro turn hturn
      rw [TurnLog.cut_add log item (by omega), TurnLog.cut_add counted item (by omega),
        hbefore turn hturn]
    · intro turn hturn hle'
      rw [TurnLog.turns_add] at hle'
      have hless : turn < counted.turns + more.toNat := by omega
      rw [TurnLog.upTo_add counted item hless, TurnLog.upTo_add_eq]
      by_cases hold : turn ≤ log.turns
      · exact (hbehind turn hturn hold).trans_le (Nat.le_add_right _ _)
      · have hlast : turn = log.turns + opens.toNat := by omega
        have hcounted := TurnLog.upTo_le_length counted turn
        have hall : log.upTo turn = log.items.length := TurnLog.upTo_of_le (by omega)
        rw [if_pos hlast.ge, hall, ← hitems]
        exact Nat.lt_succ_of_le hcounted

/-- A cut at or before the interrupted prompt makes the logs equal. -/
theorem Counts.cut {log counted : TurnLog T} {interrupted : Option ℕ}
    (h : Counts log interrupted counted) {turn : ℕ} (hturn : ∀ first ∈ interrupted, turn ≤ first) :
    Counts (log.cut turn) (interrupted.filter (· < turn)) (counted.cut turn) := by
  cases h with
  | exact => exact .exact
  | @interrupted promptIndex _ hitems halive hturns hbefore hbehind =>
    have hle : turn ≤ promptIndex := hturn promptIndex rfl
    have hnone : (some promptIndex).filter (· < turn) = none := by
      simp [Option.filter, Nat.not_lt.mpr hle]
    rw [hnone, hbefore turn hle]
    exact .exact

variable (classify) in
/-- The items of a disciplined transcript are counted by a log of its prompts. -/
def Tracked (items : List T) : Prop :=
  ∃ log, Opened classify items log ∧
    Counts log (sentPrompts classify items).interrupted (turnLog classify items)

variable (classify) in
theorem tracked_nil : Tracked classify [] :=
  ⟨.empty, ⟨rfl, rfl, by simp [TurnLog.empty], by simp [TurnLog.empty],
    by simp [sentPrompts, SentPrompts.new], by simp [sentPrompts, SentPrompts.new],
    by simp [TurnLog.empty]⟩, .exact⟩

theorem Counts.items {counted : TurnLog T} {interrupted : Option ℕ}
    (h : Counts log interrupted counted) : counted.items = log.items := by
  cases h with
  | exact => rfl
  | interrupted hitems => exact hitems

theorem Tracked.concat_marked {items : List T} (h : Tracked classify items)
    {promptIndex : ℕ} (hclass : classify item = .userChunk (some promptIndex))
    (hallows : promptIndex = (sentPrompts classify items).alive ∨
      promptIndex + 1 = (sentPrompts classify items).alive) :
    Tracked classify (items ++ [item]) := by
  obtain ⟨log, hopened, hcounts⟩ := h
  have hlog := turnLog_concat_chunk classify items hclass
  have hmore : opensTurn classify items (some promptIndex) = true ↔
      (sentPrompts classify items).current ≠ some promptIndex := by
    rw [← Bool.not_eq_false, opensTurn_some_eq_false, hopened.current, ne_eq]
  have hstep : (sentPrompts classify (items ++ [item])).interrupted =
      if promptIndex = (sentPrompts classify items).alive ∨
          (sentPrompts classify items).current = some promptIndex then
        (sentPrompts classify items).interrupted
      else (sentPrompts classify items).interrupted.or (some promptIndex) := by
    rw [sentPrompts_concat, SentPrompts.step, hclass]
  rw [hopened.alive] at hallows
  rw [hopened.alive] at hstep
  rcases hallows with hnew | hlast
  · subst hnew
    have hopens : opensTurn classify items (some log.turns) = true := by
      rw [hmore]
      intro hcurrent
      exact lt_irrefl _ (hopened.current_lt _ hcurrent)
    refine ⟨log.add true item, hopened.concat_chunk hclass rfl, ?_⟩
    have hadd := hcounts.add true true id (by simp) item
    rw [if_pos rfl] at hadd
    rwa [hlog, hopens, hstep, if_pos (Or.inl rfl)]
  · refine ⟨log.add false item, hopened.concat_chunk hclass hlast.symm, ?_⟩
    have hadd := hcounts.add false (opensTurn classify items (some promptIndex))
      (by simp) (by omega) item
    rw [hlog, hstep]
    by_cases hcurrent : (sentPrompts classify items).current = some promptIndex
    · have hopens : opensTurn classify items (some promptIndex) = false := by
        rw [← Bool.not_eq_true, hmore]
        simp [hcurrent]
      rw [hopens, if_pos rfl] at hadd
      rwa [hopens, if_pos (Or.inr hcurrent)]
    · have hopens : opensTurn classify items (some promptIndex) = true := hmore.mpr hcurrent
      have hturns : log.turns - 1 = promptIndex := by omega
      have hother : ¬ (promptIndex = log.turns ∨
          (sentPrompts classify items).current = some promptIndex) := by
        rw [not_or]
        exact ⟨by omega, hcurrent⟩
      rw [hopens, if_neg Bool.false_ne_true, hturns] at hadd
      rwa [hopens, if_neg hother]

/-- An item that a session may write next is counted with its prompts, if a marker names no prompt behind an
interrupted one. -/
theorem Tracked.concat {items : List T} (h : Tracked classify items) {item : T}
    (hallows : (sentPrompts classify items).Allows classify item)
    (hmarker : ∀ target, classify item = .rewind target →
      ∀ first ∈ (sentPrompts classify items).interrupted, target ≤ first) :
    Tracked classify (items ++ [item]) := by
  rw [SentPrompts.Allows] at hallows
  cases hclass : classify item with
  | rewind target =>
    obtain ⟨log, hopened, hcounts⟩ := h
    rw [hclass] at hallows
    dsimp only at hallows
    rw [hopened.alive] at hallows
    refine ⟨log.cut target, hopened.concat_rewind hclass hallows, ?_⟩
    rw [turnLog_concat_rewind classify items hclass, sentPrompts_concat, SentPrompts.step, hclass]
    exact hcounts.cut (hmarker target hclass)
  | userChunk promptIndex =>
    cases promptIndex with
    | none =>
      obtain ⟨log, hopened, hcounts⟩ := h
      rw [hclass] at hallows
      dsimp only at hallows
      rw [hopened.alive] at hallows
      have hopens : opensTurn classify items none = false := by
        rw [opensTurn, hopened.seen hallows]
        simp
      have hadd := hcounts.add false false id (by simp) item
      rw [if_pos rfl] at hadd
      refine ⟨log.add false item, hopened.concat_plain (.inl hclass), ?_⟩
      rwa [turnLog_concat_chunk classify items hclass, hopens, sentPrompts_concat, SentPrompts.step,
        hclass]
    | some promptIndex =>
      rw [hclass] at hallows
      exact h.concat_marked hclass hallows
  | other =>
    obtain ⟨log, hopened, hcounts⟩ := h
    have hadd := hcounts.add false false id (by simp) item
    rw [if_pos rfl] at hadd
    refine ⟨log.add false item, hopened.concat_plain (.inr hclass), ?_⟩
    rwa [turnLog_concat_other classify items hclass, sentPrompts_concat, SentPrompts.step, hclass]

/-- A marker hits its prompt exactly when no prompt before it is interrupted. -/
theorem Tracked.filterRewindBy_iff {items : List T} (h : Tracked classify items) {marker : T}
    {target : ℕ} (hclass : classify marker = .rewind target)
    (hallows : target ≤ (sentPrompts classify items).alive) :
    filterRewindBy classify (items ++ [marker]) =
        (sentPrompts classify items).before classify target ↔
      ∀ first ∈ (sentPrompts classify items).interrupted, target ≤ first := by
  obtain ⟨log, hopened, hcounts⟩ := h
  rw [filterRewindBy_concat_rewind classify items hclass, filterRewindBy_eq_items, hcounts.items,
    hopened.before_eq, TurnLog.items_cut]
  rw [hopened.alive] at hallows
  generalize (sentPrompts classify items).interrupted = interrupted at hcounts
  cases hcounts with
  | exact => simp
  | @interrupted first _ hitems halive hmore hbefore hbehind =>
    simp only [Option.mem_def, Option.some.injEq, forall_eq']
    constructor
    · intro hcut
      by_contra hle
      have hlt := hbehind target (Nat.lt_of_not_le hle) hallows
      have hlengths := congrArg List.length hcut
      rw [List.length_take, List.length_take, Nat.min_eq_left (TurnLog.upTo_le_length log target),
        Nat.min_eq_left (hlt.le.trans (TurnLog.upTo_le_length log target))] at hlengths
      exact hlt.ne hlengths
    · intro hle
      have hcut := congrArg TurnLog.items (hbefore target hle)
      rwa [TurnLog.items_cut, TurnLog.items_cut, hitems] at hcut

/-- Every marker of a disciplined transcript hits the prompt it names exactly when no marker names a prompt behind an
interrupted one. -/
theorem rewind_hits_prompt_iff {items : List T} (hdisciplined : Disciplined classify items) :
    (∀ pre marker target, pre ++ [marker] <+: items → classify marker = .rewind target →
      filterRewindBy classify (pre ++ [marker]) =
        (sentPrompts classify pre).before classify target) ↔
      ∀ pre marker target, pre ++ [marker] <+: items → classify marker = .rewind target →
        ∀ first ∈ (sentPrompts classify pre).interrupted, target ≤ first := by
  have hallows : ∀ pre marker target, pre ++ [marker] <+: items → classify marker = .rewind target →
      target ≤ (sentPrompts classify pre).alive := by
    intro pre marker target hpre hclass
    have hmarker := hdisciplined pre marker hpre
    rwa [SentPrompts.Allows, hclass] at hmarker
  have htracked : ∀ pre, pre <+: items →
      (∀ part marker target, part ++ [marker] <+: pre → classify marker = .rewind target →
        Tracked classify part → ∀ first ∈ (sentPrompts classify part).interrupted, target ≤ first) →
      Tracked classify pre := by
    intro pre hpre hmarkers
    induction pre using List.reverseRecOn with
    | nil => exact tracked_nil classify
    | append_singleton pre item ih =>
      have hbefore : Tracked classify pre := ih ((List.prefix_append pre [item]).trans hpre)
        fun part marker target hpart =>
          hmarkers part marker target (hpart.trans (List.prefix_append pre [item]))
      exact hbefore.concat (hdisciplined pre item hpre) fun target hclass =>
        hmarkers pre item target List.prefix_rfl hclass hbefore
  constructor
  · intro h pre marker target hpre hclass
    have hbefore : Tracked classify pre :=
      htracked pre ((List.prefix_append pre [marker]).trans hpre)
        fun part other named hpart hother hpartTracked => by
          have hin := hpart.trans ((List.prefix_append pre [marker]).trans hpre)
          exact (hpartTracked.filterRewindBy_iff hother (hallows _ _ _ hin hother)).mp
            (h part other named hin hother)
    exact (hbefore.filterRewindBy_iff hclass (hallows _ _ _ hpre hclass)).mp
      (h pre marker target hpre hclass)
  · intro h pre marker target hpre hclass
    have hbefore : Tracked classify pre :=
      htracked pre ((List.prefix_append pre [marker]).trans hpre)
        fun part other named hpart hother _ =>
          h part other named (hpart.trans ((List.prefix_append pre [marker]).trans hpre)) hother
    exact (hbefore.filterRewindBy_iff hclass (hallows _ _ _ hpre hclass)).mpr
      (h pre marker target hpre hclass)

/-- Two prompts in one run of chunks each, and a rewind to the second. -/
def wholePrompts : List RewindStep :=
  [.userChunk (some 0), .userChunk (some 0), .other, .userChunk (some 1), .rewind 1]

/-- The rewind to the second of two whole prompts keeps the first. -/
theorem second_prompt_hit :
    filterRewindBy id wholePrompts = [.userChunk (some 0), .userChunk (some 0), .other] := by
  have hdisciplined : Disciplined id wholePrompts := forall_prefix_concat (by decide)
  have hmarker : ∀ pre marker, pre ++ [marker] <+: wholePrompts →
      (sentPrompts id pre).interrupted = none := forall_prefix_concat (by decide)
  exact (rewind_hits_prompt_iff hdisciplined).mpr
    (fun pre marker target hpre _ first hfirst => by simp [hmarker pre marker hpre] at hfirst)
    (wholePrompts.take 4) (.rewind 1) 1 List.prefix_rfl rfl

/-- A prompt in two chunks with an update between them, and a rewind to the prompt behind it. -/
def interruptedPrompt : List RewindStep :=
  [.userChunk (some 0), .other, .userChunk (some 0), .userChunk (some 1), .rewind 1]

/-- The rewind to the prompt behind an interrupted one removes a chunk of the interrupted one. -/
theorem interrupted_prompt_lost :
    ¬∀ items : List RewindStep, Disciplined id items →
      ∀ pre marker target, pre ++ [marker] <+: items → id marker = .rewind target →
        filterRewindBy id (pre ++ [marker]) = (sentPrompts id pre).before id target := by
  intro h
  have hdisciplined : Disciplined id interruptedPrompt := forall_prefix_concat (by decide)
  have hcut := h interruptedPrompt hdisciplined (interruptedPrompt.take 4) (.rewind 1) 1
    List.prefix_rfl rfl
  revert hcut
  decide

end

end Ezer.Transcript
