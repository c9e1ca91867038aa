import Ezer.Transcript.Turns

/-!
# Runs of user chunks

What the tracker knows after some items: whether a chunk was marked, and the
prompt index of the run of user chunks at the end. A chunk opens a turn when it
does not continue that run and is marked, or no chunk was.
-/

namespace Ezer.Transcript

open Ezer.Lib

/-- A step of a user chunk. -/
def RewindStep.isUserChunk : RewindStep → Bool
  | .userChunk _ => true
  | _ => false

/-- A step of a user chunk with a prompt index. -/
def RewindStep.isMarked : RewindStep → Bool
  | .userChunk (some _) => true
  | _ => false

section

variable {T : Type*} (classify : T → RewindStep)

/-- Some chunk of the items is marked. -/
def seenMarker (items : List T) : Bool := items.any fun item => (classify item).isMarked

/-- Some item is a user chunk. -/
def hasUserChunk (items : List T) : Bool := items.any fun item => (classify item).isUserChunk

/-- The prompt index of the run of user chunks at the end of the items. -/
def runIndex (items : List T) : Option (Option ℕ) :=
  match items.getLast?.map classify with
  | some (.userChunk promptIndex) => some promptIndex
  | _ => none

/-- Whether a user chunk opens a counted turn after some items. -/
def opensTurn (items : List T) (promptIndex : Option ℕ) : Bool :=
  runIndex classify items != some promptIndex &&
    (promptIndex.isSome || !seenMarker classify items)

@[simp] theorem runIndex_nil : runIndex classify [] = none := rfl

@[simp] theorem seenMarker_concat (items : List T) (item : T) :
    seenMarker classify (items ++ [item]) =
      (seenMarker classify items || (classify item).isMarked) := by
  simp [seenMarker]

@[simp] theorem hasUserChunk_concat (items : List T) (item : T) :
    hasUserChunk classify (items ++ [item]) =
      (hasUserChunk classify items || (classify item).isUserChunk) := by
  simp [hasUserChunk]

theorem runIndex_concat (items : List T) (item : T) :
    runIndex classify (items ++ [item]) =
      match classify item with
      | .userChunk promptIndex => some promptIndex
      | _ => none := by
  rw [runIndex, List.getLast?_concat, Option.map_some]
  cases classify item <;> rfl

variable {classify}

variable {items : List T}

/-- A run at the end ends with one of its chunks. -/
theorem exists_of_runIndex {promptIndex : Option ℕ}
    (h : runIndex classify items = some promptIndex) :
    ∃ front item, items = front ++ [item] ∧ classify item = .userChunk promptIndex := by
  induction items using List.reverseRecOn with
  | nil => simp at h
  | append_singleton items item _ =>
    rw [runIndex_concat] at h
    cases hclass : classify item with
    | rewind | other => simp [hclass] at h
    | userChunk current =>
      rw [hclass, Option.some.injEq] at h
      exact ⟨items, item, rfl, h ▸ hclass⟩

theorem seenMarker_of_runIndex {k : ℕ}
    (h : runIndex classify items = some (some k)) : seenMarker classify items = true := by
  obtain ⟨front, item, rfl, hclass⟩ := exists_of_runIndex h
  simp [hclass, RewindStep.isMarked]

theorem hasUserChunk_of_runIndex {promptIndex : Option ℕ}
    (h : runIndex classify items = some promptIndex) : hasUserChunk classify items = true := by
  obtain ⟨front, item, rfl, hclass⟩ := exists_of_runIndex h
  simp [hclass, RewindStep.isUserChunk]

theorem hasUserChunk_of_seenMarker (h : seenMarker classify items = true) :
    hasUserChunk classify items = true := by
  rw [seenMarker, List.any_eq_true] at h
  obtain ⟨item, hitem, hmarked⟩ := h
  rw [hasUserChunk, List.any_eq_true]
  refine ⟨item, hitem, ?_⟩
  cases hclass : classify item <;> simp_all [RewindStep.isMarked, RewindStep.isUserChunk]

/-- A marked chunk opens no turn only when it goes on a run of its prompt. -/
theorem opensTurn_some_eq_false {k : ℕ} :
    opensTurn classify items (some k) = false ↔ runIndex classify items = some (some k) := by
  simp [opensTurn]

/-- The first user chunk opens a turn. -/
theorem opensTurn_of_not_hasUserChunk (h : hasUserChunk classify items = false)
    (promptIndex : Option ℕ) : opensTurn classify items promptIndex = true := by
  have hrun : runIndex classify items = none := by
    by_contra hrun
    obtain ⟨current, hcurrent⟩ := Option.ne_none_iff_exists'.mp hrun
    rw [hasUserChunk_of_runIndex hcurrent] at h
    cases h
  have hseen : seenMarker classify items = false := by
    by_contra hseen
    rw [hasUserChunk_of_seenMarker (by simpa using hseen)] at h
    cases h
  simp [opensTurn, hrun, hseen]

variable (classify)

/-- The tracker knows the markers and the run at the end. -/
theorem trackerAfter_eq (items : List T) :
    trackerAfter classify .new items =
      ⟨seenMarker classify items, (runIndex classify items).isSome,
        (runIndex classify items).join⟩ := by
  induction items using List.reverseRecOn with
  | nil => rfl
  | append_singleton items item ih =>
    rw [trackerAfter_append, trackerAfter_cons, trackerAfter_nil, ih, readItem, seenMarker_concat,
      runIndex_concat]
    cases hclass : classify item with
    | rewind | other => simp [UserRunTurnTracker.onNonUser, RewindStep.isMarked]
    | userChunk promptIndex =>
      have hmarked : (RewindStep.userChunk promptIndex).isMarked = promptIndex.isSome := by
        cases promptIndex <;> rfl
      rw [hmarked]
      simp only [UserRunTurnTracker.onUserChunk, UserRunTurnTracker.newRun, Option.isSome_some,
        Option.join_some]
      cases hrun : runIndex classify items with
      | none => simp
      | some current =>
        by_cases hsame : promptIndex = current
        · subst hsame
          simp
        · cases hcurrent : current with
          | none =>
            have hsome : promptIndex.isSome = true := by
              rw [← Option.ne_none_iff_isSome]
              exact hcurrent ▸ hsame
            simp [hsome, hcurrent ▸ hsame]
          | some k =>
            have hseen := seenMarker_of_runIndex (hcurrent ▸ hrun)
            simp [hseen, hcurrent ▸ hsame]

theorem onUserChunk_trackerAfter (items : List T) (promptIndex : Option ℕ) :
    ((trackerAfter classify .new items).onUserChunk promptIndex).1 =
      opensTurn classify items promptIndex := by
  rw [trackerAfter_eq, opensTurn]
  simp only [UserRunTurnTracker.onUserChunk, UserRunTurnTracker.newRun]
  cases hrun : runIndex classify items with
  | none => cases promptIndex <;> simp
  | some current =>
    cases promptIndex with
    | none =>
      cases current with
      | none => cases seenMarker classify items <;> simp
      | some k => simp [seenMarker_of_runIndex hrun]
    | some index =>
      by_cases hsame : some index = current
      · subst hsame
        simp
      · simp [hsame, Ne.symm hsame]

variable {item : T}

theorem filterRewindBy_concat (items : List T) (h : ∀ target, classify item ≠ .rewind target) :
    filterRewindBy classify (items ++ [item]) = filterRewindBy classify items ++ [item] := by
  rw [filterRewindBy_eq_items, filterRewindBy_eq_items, turnLog_concat, readItem]
  cases hclass : classify item with
  | rewind target => exact absurd hclass (h target)
  | userChunk | other => exact TurnLog.items_add _ _ _

/-- Without markers every item survives. -/
theorem filterRewindBy_of_unmarked (h : Unmarked classify items) :
    filterRewindBy classify items = items := by
  induction items using List.reverseRecOn with
  | nil => rfl
  | append_singleton items item ih =>
    rw [filterRewindBy_concat classify _ (h item (by simp)),
      ih fun other hother => h other (List.mem_append_left _ hother)]

theorem turnLog_concat_chunk (items : List T) {promptIndex : Option ℕ}
    (h : classify item = .userChunk promptIndex) :
    turnLog classify (items ++ [item]) =
      (turnLog classify items).add (opensTurn classify items promptIndex) item := by
  rw [turnLog_concat, readItem, h]
  dsimp only
  rw [onUserChunk_trackerAfter]
  rfl

theorem turnLog_concat_other (items : List T) (h : classify item = .other) :
    turnLog classify (items ++ [item]) = (turnLog classify items).add false item := by
  rw [turnLog_concat, readItem, h]
  rfl

theorem turnLog_concat_rewind (items : List T) {target : ℕ} (h : classify item = .rewind target) :
    turnLog classify (items ++ [item]) = (turnLog classify items).cut target := by
  rw [turnLog_concat, readItem, h]
  rfl

variable {classify}

/-- The survivors stand in the order of the items. -/
theorem filterRewindBy_sublist (items : List T) : (filterRewindBy classify items).Sublist items := by
  induction items using List.reverseRecOn with
  | nil => exact List.Sublist.refl []
  | append_singleton items last ih =>
    cases hclass : classify last with
    | rewind target =>
      rw [filterRewindBy_concat_rewind classify items hclass]
      exact ((List.take_sublist _ _).trans ih).trans (List.sublist_append_left _ _)
    | userChunk | other =>
      rw [filterRewindBy_concat classify _ (by simp [hclass])]
      exact ih.append_right _

/-- Filtering keeps a part of a log without markers, and a second time keeps all of it. -/
theorem filterRewindBy_filterRewindBy (items : List T) :
    (filterRewindBy classify items).Sublist items ∧
      Unmarked classify (filterRewindBy classify items) ∧
      filterRewindBy classify (filterRewindBy classify items) = filterRewindBy classify items :=
  have h := unmarked_filterRewindBy items
  ⟨filterRewindBy_sublist items, h, filterRewindBy_of_unmarked classify h⟩

/-- Every survivor was an item. -/
theorem mem_of_mem_filterRewindBy (h : item ∈ filterRewindBy classify items) : item ∈ items :=
    (filterRewindBy_sublist items).subset h

/-- A filter over other items. -/
def RewindFilter.map {S : Type*} (f : S → T) (filter : RewindFilter S) : RewindFilter T :=
  ⟨filter.result.map f, filter.promptStarts, filter.tracker⟩

theorem RewindFilter.step_map {S : Type*} (f : S → T) (filter : RewindFilter S) (item : S) :
    RewindFilter.step classify (filter.map f) (f item) =
      (RewindFilter.step (classify ∘ f) filter item).map f := by
  rw [RewindFilter.step, RewindFilter.step, Function.comp_apply]
  cases classify (f item) <;> simp [RewindFilter.map]

/-- Items that are classified through others survive where those do. -/
theorem filterRewindBy_map {S : Type*} (f : S → T) (items : List S) :
    filterRewindBy classify (items.map f) = (filterRewindBy (classify ∘ f) items).map f := by
  have hrun (filter : RewindFilter S) :
      RewindFilter.run classify (filter.map f) (items.map f) =
        (RewindFilter.run (classify ∘ f) filter items).map f := by
    induction items generalizing filter with
    | nil => rfl
    | cons item items ih =>
      rw [List.map_cons, RewindFilter.run, List.foldl_cons, RewindFilter.step_map]
      exact ih _
  exact congrArg RewindFilter.result (hrun .new)

/-- The cut for a prompt only reads how items are classified. -/
theorem truncateForPromptBy_map {S : Type*} (f : S → T) (items : List S) (targetPromptIndex : ℕ) :
    truncateForPromptBy classify (items.map f) targetPromptIndex =
      truncateForPromptBy (classify ∘ f) items targetPromptIndex := by
  have hloop (tracker : UserRunTurnTracker) (turns i : ℕ) :
      truncateLoop classify targetPromptIndex tracker turns i (items.map f) =
        truncateLoop (classify ∘ f) targetPromptIndex tracker turns i items := by
    induction items generalizing tracker turns i with
    | nil => rfl
    | cons item items ih => simp only [List.map_cons, truncateLoop, Function.comp_apply, ih]
  exact hloop .new 0 0

theorem seenMarker_of_survivors (h : seenMarker classify (filterRewindBy classify items) = true) :
    seenMarker classify items = true := by
  rw [seenMarker, List.any_eq_true] at h ⊢
  obtain ⟨item, hitem, hmarked⟩ := h
  exact ⟨item, mem_of_mem_filterRewindBy hitem, hmarked⟩

/-- A run at the end of the transcript is a run at the end of the survivors. -/
theorem runIndex_survivors {promptIndex : Option ℕ}
    (h : runIndex classify items = some promptIndex) :
    runIndex classify (filterRewindBy classify items) = some promptIndex := by
  obtain ⟨front, item, rfl, hclass⟩ := exists_of_runIndex h
  rw [filterRewindBy_concat classify _ (by simp [hclass]), runIndex_concat, hclass]

end

end Ezer.Transcript
