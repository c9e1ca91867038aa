import Ezer.Transcript.Lines
import Ezer.Transcript.Runs

/-!
# Initial replay and delta replay

The initial replay drops command catalogs and updates of running tools behind
the rewind filter, the delta replay before it. A dropped line between two chunks
ends their run for the initial replay alone, so its turns have greater numbers,
and a rewind between the two numbers of a line removes it there alone.
-/

namespace Ezer.Transcript

open Ezer.Lib

section

variable {T : Type*} {classify : T → RewindStep} {keep : T → Bool}

theorem filter_concat_of_pos {item : T} (h : keep item = true) (items : List T) :
    (items ++ [item]).filter keep = items.filter keep ++ [item] := by
  simp [h]

theorem filter_concat_of_neg {item : T} (h : keep item = false) (items : List T) :
    (items ++ [item]).filter keep = items.filter keep := by
  simp [h]

theorem seenMarker_filter (hkeep : ∀ item, keep item = false → classify item = .other)
    (items : List T) : seenMarker classify (items.filter keep) = seenMarker classify items := by
  induction items with
  | nil => rfl
  | cons item items ih =>
    rw [seenMarker] at ih ⊢
    cases hitem : keep item with
    | true =>
      rw [List.filter_cons_of_pos hitem, List.any_cons, ih]
      rfl
    | false =>
      rw [List.filter_cons_of_neg (by simp [hitem]), ih, seenMarker, seenMarker, List.any_cons,
        hkeep item hitem]
      rfl

theorem runIndex_filter (hkeep : ∀ item, keep item = false → classify item = .other)
    {items : List T} {promptIndex : Option ℕ} (h : runIndex classify items = some promptIndex) :
    runIndex classify (items.filter keep) = some promptIndex := by
  obtain ⟨front, item, rfl, hclass⟩ := exists_of_runIndex h
  cases hitem : keep item with
  | true => rw [filter_concat_of_pos hitem, runIndex_concat, hclass]
  | false => simp [hkeep item hitem] at hclass

theorem opensTurn_of_filter (hkeep : ∀ item, keep item = false → classify item = .other)
    {items : List T} {promptIndex : Option ℕ}
    (h : opensTurn classify (items.filter keep) promptIndex = true) :
    opensTurn classify items promptIndex = true := by
  rw [opensTurn, Bool.and_eq_true, seenMarker_filter hkeep, bne_iff_ne] at h
  rw [opensTurn, Bool.and_eq_true, bne_iff_ne]
  exact ⟨fun hrun => h.1 (runIndex_filter hkeep hrun), h.2⟩

theorem turnCount_concat_rewind (items : List T) {item : T} {target : ℕ}
    (h : classify item = .rewind target) :
    turnCount classify (items ++ [item]) = min (turnCount classify items) target := by
  rw [turnCount_eq, turnCount_eq, turnLog_concat_rewind classify items h, TurnLog.turns_cut]

theorem turnCount_concat_chunk (items : List T) {item : T} {promptIndex : Option ℕ}
    (h : classify item = .userChunk promptIndex) :
    turnCount classify (items ++ [item]) =
      turnCount classify items + (opensTurn classify items promptIndex).toNat := by
  rw [turnCount_eq, turnCount_eq, turnLog_concat_chunk classify items h, TurnLog.turns_add]

theorem turnCount_concat_other (items : List T) {item : T} (h : classify item = .other) :
    turnCount classify (items ++ [item]) = turnCount classify items := by
  rw [turnCount_eq, turnCount_eq, turnLog_concat_other classify items h, TurnLog.turns_add,
    Bool.toNat_false, Nat.add_zero]

theorem turnCount_filter_le (hkeep : ∀ item, keep item = false → classify item = .other)
    (items : List T) : turnCount classify (items.filter keep) ≤ turnCount classify items := by
  induction items using List.reverseRecOn with
  | nil => exact le_rfl
  | append_singleton items item ih =>
    cases hitem : keep item with
    | false =>
      rw [filter_concat_of_neg hitem, turnCount_concat_other items (hkeep item hitem)]
      exact ih
    | true =>
      rw [filter_concat_of_pos hitem]
      cases hclass : classify item with
      | rewind target =>
        rw [turnCount_concat_rewind _ hclass, turnCount_concat_rewind _ hclass]
        omega
      | other =>
        rw [turnCount_concat_other _ hclass, turnCount_concat_other _ hclass]
        exact ih
      | userChunk promptIndex =>
        rw [turnCount_concat_chunk _ hclass, turnCount_concat_chunk _ hclass]
        apply Nat.add_le_add ih
        cases hopens : opensTurn classify (items.filter keep) promptIndex with
        | false => exact Nat.zero_le _
        | true => rw [opensTurn_of_filter hkeep hopens]

theorem rewindTargets_filter (hkeep : ∀ item, keep item = false → classify item = .other)
    (items : List T) :
    rewindTargets classify (items.filter keep) = rewindTargets classify items := by
  induction items with
  | nil => rfl
  | cons item items ih =>
    rw [rewindTargets] at ih ⊢
    cases hitem : keep item with
    | true =>
      rw [List.filter_cons_of_pos hitem, List.filterMap_cons, ih]
      rfl
    | false =>
      rw [List.filter_cons_of_neg (by simp [hitem]), ih, rewindTargets, rewindTargets,
        List.filterMap_cons, hkeep item hitem]

/-- No later marker lies between the two turns that an item is counted in. -/
def CountedAlike (classify : T → RewindStep) (keep : T → Bool) (first rest : List T) : Prop :=
  ∀ before item behind, rest = before ++ item :: behind → keep item = true →
    (∀ target, classify item ≠ .rewind target) →
    (∀ target ∈ rewindTargets classify behind,
      turnCount classify ((first ++ before ++ [item]).filter keep) ≤ target) →
    ∀ target ∈ rewindTargets classify behind,
      turnCount classify (first ++ before ++ [item]) ≤ target

theorem countedAlike_cons (first : List T) (item : T) (rest : List T) :
    CountedAlike classify keep first (item :: rest) ↔
      (keep item = true → (∀ target, classify item ≠ .rewind target) →
        (∀ target ∈ rewindTargets classify rest,
          turnCount classify ((first ++ [item]).filter keep) ≤ target) →
        ∀ target ∈ rewindTargets classify rest, turnCount classify (first ++ [item]) ≤ target) ∧
      CountedAlike classify keep (first ++ [item]) rest := by
  constructor
  · intro h
    constructor
    · have hhead := h [] item rest rfl
      rwa [List.append_nil] at hhead
    · intro before other behind hrest
      have htail := h (item :: before) other behind (by rw [hrest, List.cons_append])
      rwa [List.append_cons first item before] at htail
  · rintro ⟨hhead, htail⟩ before other behind hrest
    cases before with
    | nil =>
      rw [List.nil_append, List.cons.injEq] at hrest
      obtain ⟨rfl, rfl⟩ := hrest
      rwa [List.append_nil]
    | cons head before =>
      rw [List.cons_append, List.cons.injEq] at hrest
      obtain ⟨rfl, rfl⟩ := hrest
      rw [List.append_cons first item before]
      exact htail before other behind rfl

/-- What the later filter keeps is among what the earlier one keeps, and it is the same exactly when
no later marker lies between the two turns of an item. -/
theorem survivorsBehind_filter (hkeep : ∀ item, keep item = false → classify item = .other)
    (first rest : List T) :
    ((survivorsBehind classify first rest).filter keep).Sublist
        (survivorsBehind classify (first.filter keep) (rest.filter keep)) ∧
      ((survivorsBehind classify first rest).filter keep =
          survivorsBehind classify (first.filter keep) (rest.filter keep) ↔
        CountedAlike classify keep first rest) := by
  induction rest generalizing first with
  | nil =>
    refine ⟨.slnil, iff_of_true rfl ?_⟩
    intro before item behind hrest
    simp at hrest
  | cons item rest ih =>
    obtain ⟨hsublist, hiff⟩ := ih (first ++ [item])
    rw [countedAlike_cons, ← hiff]
    cases hitem : keep item with
    | false =>
      have hother := hkeep item hitem
      have hgone : (survivorsBehind classify first (item :: rest)).filter keep =
          (survivorsBehind classify (first ++ [item]) rest).filter keep := by
        rw [survivorsBehind_cons first (by simp [hother])]
        split
        · rw [List.filter_cons_of_neg (by simp [hitem])]
        · rfl
      rw [filter_concat_of_neg hitem] at hsublist ⊢
      rw [List.filter_cons_of_neg (by simp [hitem]), hgone]
      exact ⟨hsublist, by simp⟩
    | true =>
      rw [filter_concat_of_pos hitem] at hsublist ⊢
      rw [List.filter_cons_of_pos hitem]
      by_cases hmarker : ∃ target, classify item = .rewind target
      · obtain ⟨target, htarget⟩ := hmarker
        rw [survivorsBehind_rewind first htarget, survivorsBehind_rewind _ htarget]
        exact ⟨hsublist, by simp [htarget]⟩
      · have hplain : ∀ target, classify item ≠ .rewind target := fun target htarget =>
          hmarker ⟨target, htarget⟩
        have hle := turnCount_filter_le hkeep (first ++ [item])
        rw [filter_concat_of_pos hitem] at hle
        rw [survivorsBehind_cons first hplain, survivorsBehind_cons _ hplain,
          rewindTargets_filter hkeep]
        by_cases hfirst : ∀ target ∈ rewindTargets classify rest,
            turnCount classify (first ++ [item]) ≤ target
        · have hsecond : ∀ target ∈ rewindTargets classify rest,
              turnCount classify (first.filter keep ++ [item]) ≤ target :=
            fun target htarget => hle.trans (hfirst target htarget)
          rw [if_pos hfirst, if_pos hsecond, List.filter_cons_of_pos hitem]
          refine ⟨hsublist.cons_cons item, ?_⟩
          rw [List.cons_inj_right]
          exact (and_iff_right fun _ _ _ => hfirst).symm
        · rw [if_neg hfirst]
          split
          · next hsecond =>
            refine ⟨hsublist.cons item, iff_of_false ?_ ?_⟩
            · intro heq
              have hlength := hsublist.length_le
              rw [heq, List.length_cons] at hlength
              exact Nat.not_succ_le_self _ hlength
            · rintro ⟨hhead, -⟩
              exact hfirst (hhead rfl hplain hsecond)
          · next hsecond =>
            refine ⟨hsublist, (and_iff_right ?_).symm⟩
            intro _ _ hall
            exact absurd hall hsecond

/-- Dropping items before the rewind filter is dropping them behind it exactly when no later marker lies
between the two turns of an item. -/
theorem filterRewindBy_filter_iff (hkeep : ∀ item, keep item = false → classify item = .other)
    (items : List T) :
    filterRewindBy classify (items.filter keep) = (filterRewindBy classify items).filter keep ↔
      CountedAlike classify keep [] items := by
  rw [eq_comm, ← (survivorsBehind_filter hkeep [] items).2, survivorsBehind_nil, List.filter_nil,
    survivorsBehind_nil]

end

section

variable {reader : LineReader}

/-- A line that is never sent neither is a chunk nor a marker. -/
theorem rewindStepForLine_of_dropped {line : Text} (h : lineIsDroppedOnReplay reader line = true) :
    rewindStepForLine reader line = .other := by
  obtain ⟨u, hpeek, htag⟩ : ∃ u, peekLineUpdate reader line = some u ∧
      (u.sessionUpdate = availableCommandsUpdate ∨ u.sessionUpdate = toolCallUpdate) := by
    rw [lineIsDroppedOnReplay, Bool.or_eq_true] at h
    rcases h with h | h
    · rw [lineIsAvailableCommandsUpdate, Bool.and_eq_true, Option.any_eq_true] at h
      obtain ⟨-, u, hpeek, htag⟩ := h
      exact ⟨u, hpeek, .inl (by simpa using htag)⟩
    · rw [lineIsInProgressToolCallUpdate] at h
      split at h
      · cases h
      · rw [Option.any_eq_true] at h
        obtain ⟨u, hpeek, htag⟩ := h
        rw [Bool.and_eq_true, beq_iff_eq] at htag
        exact ⟨u, hpeek, .inr htag.1⟩
  have hmarker : u.sessionUpdate ≠ rewindMarker := by
    rcases htag with htag | htag <;> rw [htag] <;> decide
  have hchunk : u.sessionUpdate ≠ userMessageChunk := by
    rcases htag with htag | htag <;> rw [htag] <;> decide
  rw [peekLineUpdate, peekLineParams] at hpeek
  rw [rewindStepForLine, peekParams]
  cases hline : reader.line line with
  | none => simp [hline] at hpeek
  | some env =>
    rw [hline] at hpeek
    have hupdate : (reader.params (env.params.getD line)).bind RawParamsPeek.update = some u := hpeek
    dsimp only
    rw [hupdate]
    simp [hmarker, hchunk]

theorem LineReader.Borrows.tag_infix (h : reader.Borrows) {line : Text} {u : RawUpdatePeek}
    (hu : (reader.params (peekParams reader line).1).bind RawParamsPeek.update = some u) :
    u.sessionUpdate <:+: line := by
  obtain ⟨peek, hpeek, hupdate⟩ := Option.bind_eq_some_iff.mp hu
  have hparams : (peekParams reader line).1 <:+: line := by
    rw [peekParams]
    cases hline : reader.line line with
    | none => exact List.infix_rfl
    | some env =>
      cases hraw : env.params with
      | none =>
        dsimp only
        rw [hraw, Option.getD_none]
      | some raw =>
        dsimp only
        rw [hraw, Option.getD_some]
        exact h.line line env raw hline hraw
  exact (h.params _ peek u hpeek hupdate).trans hparams

/-- The filter may read every line: without the tag of a marker in the file no line is one. -/
theorem filterRewindLines_eq (h : reader.Borrows) (lines : List Text) :
    filterRewindLines reader lines = filterRewindBy (rewindStepForLine reader) lines := by
  rw [filterRewindLines]
  split
  · next hnone =>
    rw [filterRewindBy_of_unmarked]
    intro line hline target hclass
    have habsent : ¬ rewindMarker <:+: line := by
      intro hin
      rw [Bool.not_eq_true', List.any_eq_false] at hnone
      exact hnone line hline (by simpa using hin)
    rw [rewindStepForLine] at hclass
    dsimp only at hclass
    split at hclass
    · cases hclass
    · next u hu =>
      have htag := h.tag_infix hu
      split at hclass
      · next t htarget =>
        split at htarget
        · next hmarker =>
          rw [Bool.and_eq_true, beq_iff_eq] at hmarker
          rw [hmarker.2] at htag
          exact habsent htag
        · cases htarget
      · split at hclass <;> cases hclass
  · rfl

theorem prepareReplayLines_none (contents : Text) :
    (prepareReplayLines reader contents none).lines =
      (filterRewindLines reader (liveLines contents)).filter
        fun line => !lineIsDroppedOnReplay reader line := rfl

/-- The delta replay of a file is its initial replay exactly when no later marker lies between the turns
of a line. -/
theorem filterDeltaReplayLines_eq_iff (hborrows : reader.Borrows) (contents : Text) :
    filterDeltaReplayLines reader contents = (prepareReplayLines reader contents none).lines ↔
      CountedAlike (rewindStepForLine reader) (fun line => !lineIsDroppedOnReplay reader line) []
        (liveLines contents) := by
  have hlive : (lines contents).filter
      (fun line => trim line ≠ [] && !lineIsDroppedOnReplay reader line) =
      (liveLines contents).filter fun line => !lineIsDroppedOnReplay reader line := by
    rw [liveLines, List.filter_filter]
    apply List.filter_congr
    intro line _
    rw [Bool.and_comm]
  rw [filterDeltaReplayLines, hlive, prepareReplayLines_none, filterRewindLines_eq hborrows,
    filterRewindLines_eq hborrows, filterRewindBy_filter_iff]
  intro line hdropped
  exact rewindStepForLine_of_dropped (by simpa using hdropped)

end

/-- A catalog between two prompts, and a rewind to the second. -/
def catalogBetween : List SampleLine := [.promptChunk 0, .catalog, .promptChunk 1, .marker 1]

/-- A catalog between two prompts is counted alike. -/
theorem catalogBetween_countedAlike :
    CountedAlike (rewindStepForLine (SampleLine.reader catalogBetween))
      (fun line => !lineIsDroppedOnReplay (SampleLine.reader catalogBetween) line) []
      (liveLines (SampleLine.file catalogBetween)) :=
  (filterDeltaReplayLines_eq_iff (SampleLine.borrows_reader catalogBetween)
    (SampleLine.file catalogBetween)).mp (by decide +kernel)

/-- A catalog between two chunks of a prompt, and a rewind to the next prompt. -/
def catalogInside : List SampleLine :=
  [.promptChunk 0, .catalog, .promptChunk 0, .promptChunk 1, .marker 1]

/-- With a catalog inside a prompt the initial replay loses a chunk that the delta replay has. -/
theorem catalogInside_differs :
    ¬∀ reader : LineReader, reader.Borrows → ∀ contents,
      filterDeltaReplayLines reader contents = (prepareReplayLines reader contents none).lines := by
  intro h
  have heq := h (SampleLine.reader catalogInside) (SampleLine.borrows_reader catalogInside)
    (SampleLine.file catalogInside)
  revert heq
  decide +kernel

end Ezer.Transcript
