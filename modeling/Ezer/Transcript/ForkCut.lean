import Ezer.Transcript.Runs

/-!
# Rewind and fork cut at the same place

A rewind cuts at the turns that were counted while the transcript was written, a
fork counts the turns of the survivors again. The two counts differ when a
marker was seen only on a branch that is dead, and when a run of user chunks
goes on behind a rewind marker.
-/

namespace Ezer.Transcript

open Ezer.Lib

section

variable {T : Type*} (classify : T → RewindStep)

/-- A rewind keeps what the fork copy keeps for the prompt before its target. -/
def CutsAgree (items : List T) : Prop :=
  ∀ (target : ℕ) (marker : T), classify marker = .rewind (target + 1) →
    filterRewindBy classify (items ++ [marker]) =
      (filterRewindBy classify items).take
        (truncateForPromptBy classify (filterRewindBy classify items) target)

/-- A user chunk opens a turn of the transcript when it opens a turn of the survivors. -/
structure KeepsNumbering (filter : RewindFilter T) (promptIndex : Option ℕ) : Prop where
  /-- An unmarked chunk goes on a run, when the markers seen are all cut. -/
  unmarked : promptIndex = none → filter.tracker.seenMarker = true →
    seenMarker classify filter.result = false → hasUserChunk classify filter.result = true →
      (runIndex classify filter.result).isSome = true
  /-- A marked chunk follows a counted turn, when it follows a user chunk. -/
  marked : promptIndex.isSome = true → filter.promptStarts = [] →
    hasUserChunk classify filter.result = false
  /-- A chunk behind a rewind marker does not go on the last run. -/
  rewound : filter.tracker.inUser = false → runIndex classify filter.result = some promptIndex →
    promptIndex = none ∧ filter.tracker.seenMarker = true

instance [DecidableEq T] (filter : RewindFilter T) (promptIndex : Option ℕ) :
    Decidable (KeepsNumbering classify filter promptIndex) :=
  decidable_of_iff
    ((promptIndex = none → filter.tracker.seenMarker = true →
        seenMarker classify filter.result = false → hasUserChunk classify filter.result = true →
          (runIndex classify filter.result).isSome = true) ∧
      (promptIndex.isSome = true → filter.promptStarts = [] →
        hasUserChunk classify filter.result = false) ∧
      (filter.tracker.inUser = false → runIndex classify filter.result = some promptIndex →
        promptIndex = none ∧ filter.tracker.seenMarker = true))
    ⟨fun h => ⟨h.1, h.2.1, h.2.2⟩, fun h => ⟨h.unmarked, h.marked, h.rewound⟩⟩

/-- The log of the survivors alone. -/
def liveLog (items : List T) : TurnLog T := turnLog classify (filterRewindBy classify items)

/-- The two counts cut alike. -/
def CountsAgree (items : List T) : Prop :=
  ∀ turn, (turnLog classify items).upTo (turn + 1) = (liveLog classify items).upTo (turn + 1)

/-- The counts are the same, or one turn of the survivors is not counted. -/
inductive Aligned (items : List T) : Prop
  | same (h : turnLog classify items = liveLog classify items) : Aligned items
  | uncounted (hturns : (turnLog classify items).turns = 0)
      (hlive : (liveLog classify items).turns = 1)
      (hseen : seenMarker classify items = true)
      (hcut : seenMarker classify (filterRewindBy classify items) = false)
      (hchunk : hasUserChunk classify (filterRewindBy classify items) = true) : Aligned items

theorem items_liveLog (items : List T) :
    (liveLog classify items).items = filterRewindBy classify items := by
  rw [liveLog, ← filterRewindBy_eq_items,
    filterRewindBy_of_unmarked classify (unmarked_filterRewindBy items)]

variable {classify}

variable {items : List T}

theorem turnLog_take (h : Unmarked classify items) (turn : ℕ) :
    turnLog classify (items.take ((turnLog classify items).upTo turn)) =
      (turnLog classify items).cut turn := by
  induction items using List.reverseRecOn with
  | nil =>
    apply TurnLog.ext
    · exact (Nat.zero_min turn).symm
    · rfl
  | append_singleton items item ih =>
    have hitems : Unmarked classify items := fun other hother =>
      h other (List.mem_append_left _ hother)
    obtain ⟨opens, hadd⟩ : ∃ opens, turnLog classify (items ++ [item]) =
        (turnLog classify items).add opens item := by
      cases hclass : classify item with
      | rewind target => exact absurd hclass (h item (by simp) target)
      | userChunk promptIndex => exact ⟨_, turnLog_concat_chunk classify items hclass⟩
      | other => exact ⟨_, turnLog_concat_other classify items hclass⟩
    have hlength : (turnLog classify items).items.length = items.length := by
      rw [← filterRewindBy_eq_items, filterRewindBy_of_unmarked classify hitems]
    by_cases hturn : turn < (turnLog classify items).turns + opens.toNat
    · rw [hadd, TurnLog.upTo_add _ item hturn, TurnLog.cut_add _ item hturn,
        List.take_append_of_le_length (hlength ▸ TurnLog.upTo_le_length _ turn), ih hitems]
    · have hturns : (turnLog classify (items ++ [item])).turns ≤ turn := by
        rw [hadd, TurnLog.turns_add]
        omega
      have hall : (turnLog classify (items ++ [item])).items.length = (items ++ [item]).length := by
        rw [← filterRewindBy_eq_items, filterRewindBy_of_unmarked classify h]
      rw [TurnLog.upTo_of_le hturns, TurnLog.cut_of_le hturns, hall, List.take_length]

/-- Survivors have a turn exactly when there is a user chunk among them. -/
theorem turns_eq_zero_iff (h : Unmarked classify items) :
    (turnLog classify items).turns = 0 ↔ hasUserChunk classify items = false := by
  induction items using List.reverseRecOn with
  | nil => exact iff_of_true rfl rfl
  | append_singleton items item ih =>
    have hitems : Unmarked classify items := fun other hother =>
      h other (List.mem_append_left _ hother)
    rw [hasUserChunk_concat]
    cases hclass : classify item with
    | rewind target => exact absurd hclass (h item (by simp) target)
    | other =>
      rw [turnLog_concat_other classify items hclass, TurnLog.turns_add, Bool.toNat_false,
        Nat.add_zero, ih hitems]
      simp [RewindStep.isUserChunk]
    | userChunk promptIndex =>
      rw [turnLog_concat_chunk classify items hclass, TurnLog.turns_add]
      simp only [RewindStep.isUserChunk, Bool.or_true, Bool.true_eq_false, iff_false]
      intro hzero
      have hnone : hasUserChunk classify items = false := (ih hitems).mp (by omega)
      have hopens := opensTurn_of_not_hasUserChunk hnone promptIndex
      rw [hopens, Bool.toNat_true] at hzero
      omega

theorem keepsNumbering_iff (items : List T) (promptIndex : Option ℕ) :
    KeepsNumbering classify (RewindFilter.run classify .new items) promptIndex ↔
      (promptIndex = none → seenMarker classify items = true →
        seenMarker classify (filterRewindBy classify items) = false →
        hasUserChunk classify (filterRewindBy classify items) = true →
          (runIndex classify (filterRewindBy classify items)).isSome = true) ∧
      (promptIndex.isSome = true → (turnLog classify items).turns = 0 →
        hasUserChunk classify (filterRewindBy classify items) = false) ∧
      (runIndex classify items = none →
        runIndex classify (filterRewindBy classify items) = some promptIndex →
          promptIndex = none ∧ seenMarker classify items = true) := by
  have hstarts : (RewindFilter.run classify .new items).promptStarts = [] ↔
      (turnLog classify items).turns = 0 := by
    rw [← length_promptStarts, List.length_eq_zero_iff]
  have htracker : (RewindFilter.run classify .new items).tracker = _ :=
    (tracker_run classify items).trans (trackerAfter_eq classify items)
  constructor
  · rintro ⟨hunmarked, hmarked, hrewound⟩
    rw [htracker] at hunmarked hrewound
    rw [hstarts] at hmarked
    exact ⟨hunmarked, hmarked, fun hrun => hrewound (by simp [hrun])⟩
  · rintro ⟨hunmarked, hmarked, hrewound⟩
    rw [← hstarts] at hmarked
    refine ⟨?_, hmarked, ?_⟩
    · rw [htracker]
      exact hunmarked
    · rw [htracker]
      exact fun hrun => hrewound (by simpa using hrun)

/-- The counts differ behind a chunk that one count opens a turn for, unless it is the first. -/
theorem add_upTo_iff (log : TurnLog T) (opens live : Bool) (item : T) :
    (∀ turn, (log.add opens item).upTo (turn + 1) = (log.add live item).upTo (turn + 1)) ↔
      opens = live ∨ log.turns = 0 := by
  simp only [TurnLog.upTo_add_eq, Nat.add_left_cancel_iff]
  constructor
  · intro h
    by_contra hne
    rw [not_or] at hne
    obtain ⟨turn, hturn⟩ := Nat.exists_eq_succ_of_ne_zero hne.2
    have hat := h turn
    clear h
    cases opens <;> cases live <;> simp_all
  · rintro (rfl | hzero) turn
    · rfl
    · have hopens := opens.toNat_le
      have hlive := live.toNat_le
      rw [if_pos (by omega), if_pos (by omega)]

theorem Aligned.countsAgree (h : Aligned classify items) :
    CountsAgree classify items := by
  intro turn
  cases h with
  | same h => rw [h]
  | uncounted hturns hlive hseen hcut hchunk =>
    rw [TurnLog.upTo_of_le (by omega), TurnLog.upTo_of_le (by omega), items_liveLog,
      filterRewindBy_eq_items]

variable {item : T}

theorem liveLog_concat_chunk (items : List T) {promptIndex : Option ℕ}
    (h : classify item = .userChunk promptIndex) :
    liveLog classify (items ++ [item]) = (liveLog classify items).add
      (opensTurn classify (filterRewindBy classify items) promptIndex) item := by
  rw [liveLog, filterRewindBy_concat classify _ (by simp [h]), turnLog_concat_chunk classify _ h]
  rfl

theorem Aligned.concat_other (h : Aligned classify items)
    (hclass : classify item = .other) : Aligned classify (items ++ [item]) := by
  have hsurvivors := filterRewindBy_concat classify items fun target => by rw [hclass]; simp
  have hlog := turnLog_concat_other classify items hclass
  have hlive : liveLog classify (items ++ [item]) = (liveLog classify items).add false item := by
    rw [liveLog, hsurvivors, turnLog_concat_other classify _ hclass]
    rfl
  cases h with
  | same h => exact .same (by rw [hlog, hlive, h])
  | uncounted hturns hone hseen hcut hchunk =>
    refine .uncounted ?_ ?_ ?_ ?_ ?_
    · rw [hlog, TurnLog.turns_add, hturns, Bool.toNat_false]
    · rw [hlive, TurnLog.turns_add, hone, Bool.toNat_false]
    · rw [seenMarker_concat, hseen, Bool.true_or]
    · rw [hsurvivors, seenMarker_concat, hcut, hclass]
      rfl
    · rw [hsurvivors, hasUserChunk_concat, hchunk, Bool.true_or]

theorem Aligned.concat_rewind (h : Aligned classify items) {target : ℕ}
    (hclass : classify item = .rewind target) : Aligned classify (items ++ [item]) := by
  have hsurvivors := filterRewindBy_concat_rewind classify items hclass
  have hlog := turnLog_concat_rewind classify items hclass
  cases h with
  | same h =>
    refine .same ?_
    rw [hlog, liveLog, hsurvivors, h, liveLog, turnLog_take (unmarked_filterRewindBy items)]
  | uncounted hturns hone hseen hcut hchunk =>
    have hsame : filterRewindBy classify (items ++ [item]) = filterRewindBy classify items := by
      rw [hsurvivors, TurnLog.upTo_of_le (by omega), ← filterRewindBy_eq_items, List.take_length]
    refine .uncounted ?_ ?_ ?_ ?_ ?_
    · rw [hlog, TurnLog.turns_cut, hturns, Nat.zero_min]
    · rw [liveLog, hsame]
      exact hone
    · rw [seenMarker_concat, hseen, Bool.true_or]
    · rw [hsame]
      exact hcut
    · rw [hsame]
      exact hchunk

/-- Behind equal counts, a chunk keeps the numbering exactly when both counts read it alike. -/
theorem keepsNumbering_of_same (h : turnLog classify items = liveLog classify items)
    (promptIndex : Option ℕ) :
    KeepsNumbering classify (RewindFilter.run classify .new items) promptIndex ↔
      opensTurn classify items promptIndex =
          opensTurn classify (filterRewindBy classify items) promptIndex ∨
        (turnLog classify items).turns = 0 := by
  have hturns : (turnLog classify items).turns = 0 ↔
      hasUserChunk classify (filterRewindBy classify items) = false := by
    rw [h, liveLog, turns_eq_zero_iff (unmarked_filterRewindBy items)]
  have hsurvived : ∀ current, runIndex classify items = some current →
      runIndex classify (filterRewindBy classify items) = some current :=
    fun _ => runIndex_survivors
  have hseen : seenMarker classify (filterRewindBy classify items) = true →
      seenMarker classify items = true := seenMarker_of_survivors
  have hindex : ∀ k, runIndex classify (filterRewindBy classify items) = some (some k) →
      seenMarker classify (filterRewindBy classify items) = true := fun _ => seenMarker_of_runIndex
  have hchunk : ∀ current, runIndex classify (filterRewindBy classify items) = some current →
      hasUserChunk classify (filterRewindBy classify items) = true :=
    fun _ => hasUserChunk_of_runIndex
  rw [keepsNumbering_iff, hturns, opensTurn, opensTurn]
  generalize runIndex classify items = run at *
  generalize runIndex classify (filterRewindBy classify items) = live at *
  generalize seenMarker classify items = seen at *
  generalize seenMarker classify (filterRewindBy classify items) = liveSeen at *
  generalize hasUserChunk classify (filterRewindBy classify items) = chunk at *
  clear hturns h
  cases chunk with
  | false =>
    have hlive : live = none := by
      cases live with
      | none => rfl
      | some current => exact absurd (hchunk current rfl) Bool.false_ne_true
    simp [hlive]
  | true =>
    cases promptIndex with
    | none =>
      cases live with
      | none => cases run <;> cases seen <;> cases liveSeen <;> simp_all
      | some current =>
        cases current with
        | none => cases run <;> cases seen <;> cases liveSeen <;> simp_all
        | some k =>
          have hliveSeen : liveSeen = true := hindex k rfl
          simp [hliveSeen, hseen hliveSeen]
    | some k =>
      cases run with
      | none =>
        by_cases hlive : live = some (some k)
        · simp [hlive]
        · have hne : (live != some (some k)) = true := by simpa using hlive
          simp [hlive, hne]
      | some current => simp_all

theorem keepsNumbering_of_uncounted (hturns : (turnLog classify items).turns = 0)
    (hseen : seenMarker classify items = true)
    (hcut : seenMarker classify (filterRewindBy classify items) = false)
    (hchunk : hasUserChunk classify (filterRewindBy classify items) = true)
    (promptIndex : Option ℕ) :
    KeepsNumbering classify (RewindFilter.run classify .new items) promptIndex ↔
      opensTurn classify (filterRewindBy classify items) promptIndex = false := by
  rw [keepsNumbering_iff, opensTurn, hcut, hseen, hchunk, hturns]
  cases promptIndex with
  | none =>
    simp only [forall_const, Option.isSome_none, Bool.false_eq_true, false_implies, and_true,
      Bool.not_false, Bool.or_true, Bool.and_true, implies_true]
    cases hrun : runIndex classify (filterRewindBy classify items) with
    | none => simp
    | some current =>
      cases current with
      | none => simp
      | some k =>
        have hmarked := seenMarker_of_runIndex hrun
        rw [hcut] at hmarked
        cases hmarked
  | some k =>
    have hrun : runIndex classify (filterRewindBy classify items) ≠ some (some k) := by
      intro hrun
      have hmarked := seenMarker_of_runIndex hrun
      rw [hcut] at hmarked
      cases hmarked
    simp [hrun]

theorem Aligned.keepsNumbering_iff (h : Aligned classify items)
    {promptIndex : Option ℕ} (hclass : classify item = .userChunk promptIndex) :
    KeepsNumbering classify (RewindFilter.run classify .new items) promptIndex ↔
      CountsAgree classify (items ++ [item]) := by
  have hlog := turnLog_concat_chunk classify items hclass
  have hlive := liveLog_concat_chunk items hclass
  rw [CountsAgree, hlog, hlive]
  cases h with
  | same h => rw [keepsNumbering_of_same h, ← h, add_upTo_iff]
  | uncounted hturns hone hseen hcut hchunk =>
    rw [keepsNumbering_of_uncounted hturns hseen hcut hchunk]
    have hlength : (turnLog classify items).items.length =
        (liveLog classify items).items.length := by
      rw [items_liveLog, filterRewindBy_eq_items]
    have hopens := (opensTurn classify items promptIndex).toNat_le
    have hold : ∀ turn, (turnLog classify items).upTo (turn + 1) =
        (liveLog classify items).upTo (turn + 1) := fun turn => by
      rw [TurnLog.upTo_of_le (by omega), TurnLog.upTo_of_le (by omega), hlength]
    simp only [TurnLog.upTo_add_eq, hold, hturns, hone, Nat.add_left_cancel_iff]
    constructor
    · intro hopen turn
      rw [hopen, Bool.toNat_false, if_pos (by omega), if_pos (by omega)]
    · intro hagree
      have hfirst := hagree 0
      rw [if_pos (by omega)] at hfirst
      cases hlast : opensTurn classify (filterRewindBy classify items) promptIndex with
      | false => rfl
      | true => simp [hlast] at hfirst

theorem Aligned.concat_chunk (h : Aligned classify items)
    {promptIndex : Option ℕ} (hclass : classify item = .userChunk promptIndex)
    (hkeeps : KeepsNumbering classify (RewindFilter.run classify .new items) promptIndex) :
    Aligned classify (items ++ [item]) := by
  have hlog := turnLog_concat_chunk classify items hclass
  have hlive := liveLog_concat_chunk items hclass
  have hsurvivors := filterRewindBy_concat classify items fun target => by rw [hclass]; simp
  cases h with
  | same h =>
    rw [keepsNumbering_of_same h] at hkeeps
    by_cases hopens : opensTurn classify items promptIndex =
        opensTurn classify (filterRewindBy classify items) promptIndex
    · exact .same (by rw [hlog, hlive, h, hopens])
    · have hzero : (turnLog classify items).turns = 0 := hkeeps.resolve_left hopens
      have hchunk : hasUserChunk classify (filterRewindBy classify items) = false := by
        rw [← turns_eq_zero_iff (unmarked_filterRewindBy items), ← liveLog, ← h, hzero]
      have hliveOpens := opensTurn_of_not_hasUserChunk hchunk promptIndex
      rw [hliveOpens, Bool.not_eq_true] at hopens
      have hrun : runIndex classify items = none := by
        by_contra hrun
        obtain ⟨current, hcurrent⟩ := Option.ne_none_iff_exists'.mp hrun
        rw [hasUserChunk_of_runIndex (runIndex_survivors hcurrent)] at hchunk
        cases hchunk
      have hclosed : promptIndex = none ∧ seenMarker classify items = true := by
        rw [opensTurn, hrun] at hopens
        simpa using hopens
      refine .uncounted ?_ ?_ ?_ ?_ ?_
      · rw [hlog, TurnLog.turns_add, hzero, hopens, Bool.toNat_false]
      · rw [hlive, TurnLog.turns_add, ← h, hzero, hliveOpens, Bool.toNat_true]
      · rw [seenMarker_concat, hclosed.2, Bool.true_or]
      · rw [hsurvivors, seenMarker_concat, hclass, hclosed.1]
        simp only [RewindStep.isMarked, Bool.or_false]
        by_contra hmarked
        rw [hasUserChunk_of_seenMarker (by simpa using hmarked)] at hchunk
        cases hchunk
      · rw [hsurvivors, hasUserChunk_concat, hclass]
        simp [RewindStep.isUserChunk]
  | uncounted hturns hone hseen hcut hchunk =>
    rw [keepsNumbering_of_uncounted hturns hseen hcut hchunk] at hkeeps
    have hnone : promptIndex = none := by
      cases promptIndex with
      | none => rfl
      | some k =>
        have hrun := opensTurn_some_eq_false.mp hkeeps
        have hmarked := seenMarker_of_runIndex hrun
        rw [hcut] at hmarked
        cases hmarked
    subst hnone
    refine .uncounted ?_ ?_ ?_ ?_ ?_
    · rw [hlog, TurnLog.turns_add, hturns, opensTurn, hseen]
      simp
    · rw [hlive, TurnLog.turns_add, hone, hkeeps, Bool.toNat_false]
    · rw [seenMarker_concat, hseen, Bool.true_or]
    · rw [hsurvivors, seenMarker_concat, hcut, hclass]
      rfl
    · rw [hsurvivors, hasUserChunk_concat, hchunk, Bool.true_or]

theorem aligned_of_countsAgree
    (h : ∀ pre, pre <+: items → CountsAgree classify pre) : Aligned classify items := by
  induction items using List.reverseRecOn with
  | nil => exact .same rfl
  | append_singleton items item ih =>
    have haligned : Aligned classify items := ih fun pre hpre =>
      h pre (hpre.trans (List.prefix_append items [item]))
    cases hclass : classify item with
    | rewind target => exact haligned.concat_rewind hclass
    | other => exact haligned.concat_other hclass
    | userChunk promptIndex =>
      exact haligned.concat_chunk hclass
        ((haligned.keepsNumbering_iff hclass).mpr (h _ List.prefix_rfl))

theorem aligned_of_keepsNumbering
    (h : ∀ pre item promptIndex, pre ++ [item] <+: items → classify item = .userChunk promptIndex →
      KeepsNumbering classify (RewindFilter.run classify .new pre) promptIndex) :
    Aligned classify items := by
  induction items using List.reverseRecOn with
  | nil => exact .same rfl
  | append_singleton items item ih =>
    have haligned : Aligned classify items := ih fun pre other promptIndex hpre =>
      h pre other promptIndex (hpre.trans (List.prefix_append items [item]))
    cases hclass : classify item with
    | rewind target => exact haligned.concat_rewind hclass
    | other => exact haligned.concat_other hclass
    | userChunk promptIndex =>
      exact haligned.concat_chunk hclass (h items item promptIndex List.prefix_rfl hclass)

theorem cutsAgree_iff {marker : ℕ → T} (hmarker : ∀ target, classify (marker target) = .rewind target)
    (items : List T) : CutsAgree classify items ↔ CountsAgree classify items := by
  have hlength : ∀ turn, (turnLog classify items).upTo turn ≤ (filterRewindBy classify items).length :=
    fun turn => by
      rw [filterRewindBy_eq_items]
      exact TurnLog.upTo_le_length _ turn
  have hlive : ∀ turn, (turnLog classify (filterRewindBy classify items)).upTo turn ≤
      (filterRewindBy classify items).length := fun turn => by
    have hle := TurnLog.upTo_le_length (liveLog classify items) turn
    rwa [items_liveLog] at hle
  constructor
  · intro h turn
    have hcut := h turn (marker (turn + 1)) (hmarker (turn + 1))
    rw [filterRewindBy_concat_rewind classify items (hmarker (turn + 1)),
      truncateForPromptBy_eq (unmarked_filterRewindBy items)] at hcut
    have hlengths := congrArg List.length hcut
    rwa [List.length_take, List.length_take, Nat.min_eq_left (hlength _),
      Nat.min_eq_left (hlive _)] at hlengths
  · intro h target other hother
    rw [filterRewindBy_concat_rewind classify items hother,
      truncateForPromptBy_eq (unmarked_filterRewindBy items), h target, liveLog]

/-- A rewind and the fork copy cut alike throughout a transcript exactly when every user chunk keeps the numbering. -/
theorem rewind_fork_agree_iff {marker : ℕ → T}
    (hmarker : ∀ target, classify (marker target) = .rewind target) (items : List T) :
    (∀ pre, pre <+: items → CutsAgree classify pre) ↔
      ∀ pre item promptIndex, pre ++ [item] <+: items → classify item = .userChunk promptIndex →
        KeepsNumbering classify (RewindFilter.run classify .new pre) promptIndex := by
  simp only [cutsAgree_iff hmarker]
  constructor
  · intro h pre item promptIndex hpre hclass
    have haligned : Aligned classify pre := aligned_of_countsAgree fun part hpart =>
      h part (hpart.trans ((List.prefix_append pre [item]).trans hpre))
    exact (haligned.keepsNumbering_iff hclass).mpr (h _ hpre)
  · intro h pre hpre
    exact (aligned_of_keepsNumbering fun part item promptIndex hpart =>
      h part item promptIndex (hpart.trans hpre)).countsAgree

/-- The fork copy has the lines that a rewind to the next prompt leaves. -/
theorem survivingLineIndexes_eq {steps : List RewindStep} {targetPromptIndex : ℕ}
    (h : CutsAgree LineRecord.step (steps.mapIdx LineRecord.mk)) :
    survivingLineIndexes steps targetPromptIndex =
      (filterRewindBy LineRecord.step (steps.mapIdx LineRecord.mk ++
        [⟨steps.length, .rewind (targetPromptIndex + 1)⟩])).map LineRecord.index := by
  rw [h targetPromptIndex _ rfl]
  rfl

/-- A marked prompt that is rewound and sent again. -/
def resentPrompt : List RewindStep := [.userChunk (some 0), .rewind 0, .userChunk (some 0)]

/-- A prompt that is sent again is cut alike. -/
theorem resent_prompt_agrees : CutsAgree id resentPrompt := by
  have hmarked : ∀ pre item, pre ++ [item] <+: resentPrompt →
      item = .userChunk (some 0) ∨ item = .rewind 0 := forall_prefix_concat (by decide)
  have hkeeps : ∀ pre item, pre ++ [item] <+: resentPrompt → item = .userChunk (some 0) →
      KeepsNumbering id (RewindFilter.run id .new pre) (some 0) := forall_prefix_concat (by decide)
  refine (@rewind_fork_agree_iff RewindStep id RewindStep.rewind (fun _ => rfl) resentPrompt).mpr
    (fun pre item promptIndex hpre hclass => ?_) _ List.prefix_rfl
  rcases hmarked pre item hpre with hitem | hitem
  · rw [hitem] at hclass
    cases hclass
    exact hkeeps pre item hpre hitem
  · rw [hitem] at hclass
    cases hclass

/-- A prompt is rewound, a command without a marker follows, then the prompt again: the fork copy of the prompt loses it. -/
theorem rewound_marker_miscounted :
    ¬∀ items : List RewindStep, CutsAgree id items := by
  intro h
  have hcut := h [.userChunk (some 0), .rewind 0, .userChunk none, .other, .userChunk (some 0)] 0
    (.rewind 1) rfl
  revert hcut
  decide

end

end Ezer.Transcript
