import Ezer.ChatRebuild.Reducer
import Ezer.Transcript.Runs

/-!
# Rewinds in a rebuild

A rebuild passes over the rewind markers that a replay follows. It only reads some
updates behind the last checkpoint, so the two agree as long as no marker there cuts
a turn.
-/

namespace Ezer.ChatRebuild

open Ezer.Lib Ezer.Transcript SessionUpdate

/-- Whether the reducer looks into an update. -/
def reads : SessionUpdate → Bool
  | .acp .availableCommandsUpdate _ | .acp .other _ => false
  | .acp _ _ => true
  | .xai _ => false

/-- The updates that a rebuild comes from. -/
def relevant (updates : List SessionUpdate) : List SessionUpdate :=
  (behindCheckpoint updates).filter reads

/-- No marker behind the last checkpoint names a turn that is left. -/
def RewindsNothing (updates : List SessionUpdate) : Prop :=
  ∀ front target rest, updates = front ++ .xai (.rewindMarker target) :: rest →
    rest.any isCheckpoint = false → (turnLog rewindStepForUpdate front).turns ≤ target

theorem relevant_concat (updates : List SessionUpdate) (update : SessionUpdate) :
    relevant (updates ++ [update]) =
      if isCheckpoint update then [] else relevant updates ++ [update].filter reads := by
  cases h : isCheckpoint update <;> simp [relevant, behindCheckpoint, h]

theorem foldl_step_ready (updates : List SessionUpdate) :
    (updates.foldl Rebuild.step ⟨.new, []⟩).reducer.needsTruncate = false := by
  induction updates using List.reverseRecOn with
  | nil => rfl
  | append_singleton updates update =>
    rw [List.foldl_append, List.foldl_cons, List.foldl_nil, Rebuild.step]
    dsimp only
    split
    · rfl
    · next h => simpa using h

/-- A checkpoint starts over, and an update that is not looked into changes nothing. -/
theorem foldl_step_relevant (updates : List SessionUpdate) :
    updates.foldl Rebuild.step ⟨.new, []⟩ = (relevant updates).foldl Rebuild.step ⟨.new, []⟩ := by
  induction updates using List.reverseRecOn with
  | nil => rfl
  | append_singleton updates update ih =>
    have hready := foldl_step_ready updates
    rw [List.foldl_append, relevant_concat]
    cases hread : reads update with
    | true =>
      have hkeep : isCheckpoint update = false := by
        cases update with
        | acp => rfl
        | xai => cases hread
      rw [hkeep, if_neg Bool.false_ne_true, List.filter_singleton, hread, cond_true,
        List.foldl_append, ih]
    | false =>
      rcases update with ⟨update, _⟩ | update <;> cases update <;>
        simp_all [reads, isCheckpoint, Rebuild.step, ChatReducer.process, ChatReducer.handleAcp,
          ChatReducer.handleXai, ChatReducer.reset, ChatReducer.new]

theorem rebuildChatHistory_congr {first second : List SessionUpdate}
    (h : relevant first = relevant second) : rebuildChatHistory first = rebuildChatHistory second := by
  rw [rebuildChatHistory, rebuildChatHistory, foldl_step_relevant, h, ← foldl_step_relevant]

/-- The markers of a part in front keep what a rebuild comes from. -/
theorem RewindsNothing.relevant_filterRewindBy {updates front rest : List SessionUpdate}
    (h : RewindsNothing updates) (hsplit : updates = front ++ rest)
    (hrest : rest.any isCheckpoint = false) :
    relevant (filterRewindBy rewindStepForUpdate front) = relevant front := by
  induction front using List.reverseRecOn generalizing rest with
  | nil => rfl
  | append_singleton front update ih =>
    rw [List.append_assoc, List.singleton_append] at hsplit
    cases hclass : rewindStepForUpdate update with
    | rewind target =>
      obtain rfl : update = .xai (.rewindMarker target) := by
        revert hclass
        fun_cases rewindStepForUpdate update <;> simp
      have hturns := h front target rest hsplit hrest
      rw [filterRewindBy_concat_rewind _ _ hclass, TurnLog.upTo_of_le hturns,
        ← filterRewindBy_eq_items, List.take_length, ih hsplit (by simpa [isCheckpoint] using hrest)]
      simp [relevant_concat, isCheckpoint, reads]
    | userChunk | other =>
      rw [filterRewindBy_concat _ _ (by simp [hclass]), relevant_concat, relevant_concat]
      split
      · rfl
      · next hkeep => rw [ih hsplit (by simpa [hrest] using hkeep)]

/-- A rebuild agrees with the replay while no marker behind the last checkpoint cuts a turn. -/
theorem rebuildChatHistory_filterRewindUpdates {updates : List SessionUpdate}
    (h : RewindsNothing updates) :
    rebuildChatHistory (filterRewindUpdates updates) = rebuildChatHistory updates := by
  rw [filterRewindUpdates]
  split
  · rfl
  · exact rebuildChatHistory_congr (h.relevant_filterRewindBy (List.append_nil _).symm rfl)

theorem rebuildChatHistory_filterRewindUpdates_checkpoint :
    let prompt := SessionUpdate.acp (.userMessageChunk ⟨.text "a", none⟩) none
    let updates := [prompt, .xai (.rewindMarker 0), .xai .compactionCheckpoint, prompt,
      .xai (.rewindMarker 1)]
    rebuildChatHistory (filterRewindUpdates updates) = rebuildChatHistory updates := by
  intro prompt updates
  refine rebuildChatHistory_filterRewindUpdates fun front target rest hsplit hrest => ?_
  obtain ⟨_, rfl, ⟨rfl, -, rfl⟩ | ⟨rfl, rfl, -⟩⟩ : ∃ left, front = prompt :: left ∧
      (left = [] ∧ target = 0 ∧ rest = updates.drop 2 ∨
        left = (updates.drop 1).take 3 ∧ target = 1 ∧ rest = []) := by
    simpa [updates, prompt, List.cons_eq_append_iff] using hsplit
  · cases hrest
  · decide

/-- A turn that is rewound away comes back. -/
theorem rebuildChatHistory_rewound :
    ¬ ∀ updates, rebuildChatHistory (filterRewindUpdates updates) = rebuildChatHistory updates :=
  fun h => absurd (congrArg Prod.snd (h [.acp (.userMessageChunk ⟨.text "a", none⟩) none,
    .acp (.agentMessageChunk ⟨.text "b", none⟩) none, .xai (.rewindMarker 0)])) (by decide)

end Ezer.ChatRebuild
