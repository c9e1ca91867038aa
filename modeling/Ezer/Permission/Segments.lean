import Ezer.Permission.Evaluate

/-!
# The loop over the segments

Findings and prompts are only added by the loop. When it ends without a deny,
every segment had its facts noted and its verdict settled; it ends with a deny
exactly when some segment has one.
-/

namespace Ezer.Permission

open Ezer.Lib

section

variable {glob : GlobCompiler} {state : PermissionState} {honorSafeLists : Bool}

/-- The loop has found and asked for at least as much. -/
structure SegmentLoop.Grows (before after : SegmentLoop) : Prop where
  assessment : before.assessment ⊆ after.assessment
  needsPrompt : before.needsPrompt <+: after.needsPrompt

theorem SegmentLoop.Grows.refl (loop : SegmentLoop) : loop.Grows loop where
  assessment := Finset.Subset.refl _
  needsPrompt := List.prefix_rfl

theorem SegmentLoop.Grows.trans {first second third : SegmentLoop} (h : first.Grows second)
    (h' : second.Grows third) : first.Grows third where
  assessment := h.assessment.trans h'.assessment
  needsPrompt := h.needsPrompt.trans h'.needsPrompt

theorem subset_insertIf (condition : Bool) (finding : ClassifierSecurityFinding)
    (assessment : BashSecurityAssessment) : assessment ⊆ insertIf condition finding assessment := by
  unfold insertIf
  split
  · exact Finset.subset_insert finding assessment
  · exact Finset.Subset.refl assessment

theorem mem_insertIf {condition : Bool} {finding other : ClassifierSecurityFinding}
    {assessment : BashSecurityAssessment} :
    other ∈ insertIf condition finding assessment ↔
      (condition = true ∧ other = finding) ∨ other ∈ assessment := by
  unfold insertIf
  cases condition <;> simp

theorem SegmentLoop.note_grows (loop : SegmentLoop) (rawWords : List Text) :
    loop.Grows (loop.note rawWords) where
  assessment := (subset_insertIf _ _ _).trans (subset_insertIf _ _ _)
  needsPrompt := List.prefix_rfl

theorem SegmentLoop.settle_grows (loop : SegmentLoop) (words : List Text)
    (verdict : SegmentVerdict) : loop.Grows (loop.settle words verdict) := by
  cases verdict with
  | setup | deny => exact .refl loop
  | allow granted => exact { assessment := Finset.Subset.refl _, needsPrompt := List.prefix_rfl }
  | prompt finding granted =>
    constructor
    · cases finding with
      | none => exact Finset.Subset.refl _
      | some finding => exact Finset.subset_insert finding _
    · exact List.prefix_append _ _

variable {loop : SegmentLoop} {parsed : PlainCommand}

/-- A deny ends the loop where it stands. -/
theorem evaluateSegments_of_deny {denied : Text}
    (h : segmentVerdict glob state honorSafeLists (unwrapWrappers parsed.words) = .deny denied)
    (rest : List PlainCommand) :
    evaluateSegments glob state honorSafeLists loop (parsed :: rest) =
      (loop.note parsed.words, some denied) := by
  simp only [evaluateSegments, h]

/-- Any other verdict is settled and the loop goes on. -/
theorem evaluateSegments_of_not_deny (h : ∀ denied,
      segmentVerdict glob state honorSafeLists (unwrapWrappers parsed.words) ≠ .deny denied)
    (rest : List PlainCommand) :
    evaluateSegments glob state honorSafeLists loop (parsed :: rest) =
      evaluateSegments glob state honorSafeLists
        ((loop.note parsed.words).settle (unwrapWrappers parsed.words)
          (segmentVerdict glob state honorSafeLists (unwrapWrappers parsed.words))) rest := by
  cases hv : segmentVerdict glob state honorSafeLists (unwrapWrappers parsed.words) with
  | deny denied => exact absurd hv (h denied)
  | setup | prompt | allow => simp only [evaluateSegments, hv]

theorem evaluateSegments_grows (loop : SegmentLoop) (segments : List PlainCommand) :
    loop.Grows (evaluateSegments glob state honorSafeLists loop segments).1 := by
  induction segments generalizing loop with
  | nil => exact .refl loop
  | cons parsed rest ih =>
    by_cases h : ∃ denied,
        segmentVerdict glob state honorSafeLists (unwrapWrappers parsed.words) = .deny denied
    · obtain ⟨denied, hdenied⟩ := h
      rw [evaluateSegments_of_deny hdenied]
      exact loop.note_grows parsed.words
    · push Not at h
      rw [evaluateSegments_of_not_deny h]
      exact ((loop.note_grows parsed.words).trans (SegmentLoop.settle_grows _ _ _)).trans (ih _)

/-- The loop ends without a deny exactly when no segment has one. -/
theorem evaluateSegments_snd_eq_none_iff (loop : SegmentLoop) (segments : List PlainCommand) :
    (evaluateSegments glob state honorSafeLists loop segments).2 = none ↔
      ∀ parsed ∈ segments, ∀ denied,
        segmentVerdict glob state honorSafeLists (unwrapWrappers parsed.words) ≠ .deny denied := by
  induction segments generalizing loop with
  | nil => simp [evaluateSegments]
  | cons parsed rest ih =>
    rw [List.forall_mem_cons]
    by_cases h : ∃ denied,
        segmentVerdict glob state honorSafeLists (unwrapWrappers parsed.words) = .deny denied
    · obtain ⟨denied, hdenied⟩ := h
      rw [evaluateSegments_of_deny hdenied]
      constructor
      · intro hnone
        contradiction
      · rintro ⟨hhead, _⟩
        exact absurd hdenied (hhead denied)
    · push Not at h
      rw [evaluateSegments_of_not_deny h, ih]
      exact ⟨fun hrest => ⟨h, hrest⟩, fun hall => hall.2⟩

/-- After a loop without a deny every segment was settled. -/
theorem exists_settled {segments : List PlainCommand}
    (hnone : (evaluateSegments glob state honorSafeLists loop segments).2 = none)
    (hmem : parsed ∈ segments) :
    ∃ loop' : SegmentLoop, ((loop'.note parsed.words).settle (unwrapWrappers parsed.words)
        (segmentVerdict glob state honorSafeLists (unwrapWrappers parsed.words))).Grows
      (evaluateSegments glob state honorSafeLists loop segments).1 := by
  have hverdicts := (evaluateSegments_snd_eq_none_iff loop segments).mp hnone
  induction segments generalizing loop with
  | nil => contradiction
  | cons first rest ih =>
    rw [List.forall_mem_cons] at hverdicts
    rw [evaluateSegments_of_not_deny hverdicts.1] at hnone ⊢
    cases List.mem_cons.mp hmem with
    | inr hrest => exact ih hnone hrest hverdicts.2
    | inl hfirst =>
      rw [hfirst]
      exact ⟨loop, evaluateSegments_grows _ rest⟩

/-- After a loop without a deny the facts of every segment are noted. -/
theorem execOrAmbientGit_mem {segments : List PlainCommand}
    (hnone : (evaluateSegments glob state honorSafeLists loop segments).2 = none)
    (hmem : parsed ∈ segments)
    (hrisk : (segmentExecFacts parsed.words).execRisk = true) :
    .execOrAmbientGit ∈ (evaluateSegments glob state honorSafeLists loop segments).1.assessment := by
  obtain ⟨loop', hgrows⟩ := exists_settled hnone hmem
  apply hgrows.assessment
  apply (SegmentLoop.settle_grows _ _ _).assessment
  exact mem_insertIf.mpr (Or.inl ⟨hrisk, rfl⟩)

/-- After a loop without a deny every segment that must prompt is asked for. -/
theorem prompt_mem {segments : List PlainCommand}
    (hnone : (evaluateSegments glob state honorSafeLists loop segments).2 = none)
    (hmem : parsed ∈ segments)
    {finding : Option ClassifierSecurityFinding} {granted : Bool}
    (hprompt : segmentVerdict glob state honorSafeLists (unwrapWrappers parsed.words) =
      .prompt finding granted) :
    joinWords (unwrapWrappers parsed.words) ∈
        (evaluateSegments glob state honorSafeLists loop segments).1.needsPrompt ∧
      ∀ found, finding = some found →
        found ∈ (evaluateSegments glob state honorSafeLists loop segments).1.assessment := by
  obtain ⟨loop', hgrows⟩ := exists_settled hnone hmem
  rw [hprompt] at hgrows
  refine ⟨hgrows.needsPrompt.subset ?_, ?_⟩
  · exact List.mem_append_right _ (List.mem_singleton.mpr rfl)
  · rintro found rfl
    exact hgrows.assessment (Finset.mem_insert_self found _)

theorem findDeny_eq_none_iff (state : PermissionState) (cmd : Text) :
    findDeny state cmd = none ↔
      ∀ denied ∈ state.disallowedBashCommands, matchesCommandPrefix cmd denied = false := by
  unfold findDeny
  simp only [List.find?_eq_none, Bool.not_eq_true]

/-- A segment is denied exactly by a remembered deny it equals or extends. -/
theorem segmentVerdict_deny_iff (words : List Text) :
    (∃ denied, segmentVerdict glob state honorSafeLists words = .deny denied) ↔
      isSetupCommand words = false ∧ ∃ denied ∈ state.disallowedBashCommands,
        matchesCommandPrefix (joinWords words) denied = true := by
  unfold segmentVerdict
  cases hsetup : isSetupCommand words with
  | true => simp
  | false =>
    cases hfind : findDeny state (joinWords words) with
    | some denied =>
      simp only [Bool.false_eq_true, if_false, true_and]
      refine iff_of_true ⟨denied, rfl⟩ ⟨denied, ?_, ?_⟩
      · exact List.mem_of_find?_eq_some hfind
      · exact List.find?_some hfind
    | none =>
      simp only [Bool.false_eq_true, if_false, true_and]
      apply iff_of_false
      · rintro ⟨denied, hdenied⟩
        split_ifs at hdenied
      · rintro ⟨denied, hmem, hmatch⟩
        rw [(findDeny_eq_none_iff state _).mp hfind denied hmem] at hmatch
        contradiction

/-- A dangerous segment that is not denied prompts. -/
theorem segmentVerdict_of_dangerous {words : List Text} (hsetup : isSetupCommand words = false)
    (hdeny : ∀ denied, segmentVerdict glob state honorSafeLists words ≠ .deny denied)
    (hdangerous : isDangerousCommandWords words = true) :
    segmentVerdict glob state honorSafeLists words =
      .prompt (some .dangerousCommand) (matchedGrant glob state words) := by
  unfold segmentVerdict at hdeny ⊢
  rw [hsetup] at hdeny ⊢
  cases hfind : findDeny state (joinWords words) with
  | some denied =>
    rw [hfind] at hdeny
    exact absurd rfl (hdeny denied)
  | none => simp [hdangerous]

end

end Ezer.Permission
