import Ezer.Permission.Denies

/-!
# More grants allow more

With the same denies, a state that remembers more grants allows whatever a
state with fewer of them allows. The always-allow row is tried out on a state
that remembers nothing else, so what it lets through there it lets through in
every state whose denies do not match the script.
-/

namespace Ezer.Permission

open Ezer.Lib

/-- Everything granted in one state is granted in another with the same denies. -/
structure PermissionState.GrantsLe (less more : PermissionState) : Prop where
  execute : less.allowBashExecute = true → more.allowBashExecute = true
  commands : less.allowedBashCommands ⊆ more.allowedBashCommands
  globs : less.allowedBashGlobs ⊆ more.allowedBashGlobs
  denies : ∀ denied, denied ∈ less.disallowedBashCommands ↔ denied ∈ more.disallowedBashCommands

/-- A verdict at least as permissive, with the same findings where it prompts. -/
inductive SegmentVerdict.Relaxes : SegmentVerdict → SegmentVerdict → Prop where
  | setup : Relaxes .setup .setup
  | deny (denied denied' : Text) : Relaxes (.deny denied) (.deny denied')
  | prompt (finding : Option ClassifierSecurityFinding) {granted granted' : Bool}
      (h : granted = true → granted' = true) :
      Relaxes (.prompt finding granted) (.prompt finding granted')
  | allowed {finding : Option ClassifierSecurityFinding} {granted granted' : Bool}
      (hfinding : finding ≠ some .dangerousCommand) (h : granted = true → granted' = true) :
      Relaxes (.prompt finding granted) (.allow granted')
  | allow {granted granted' : Bool} (h : granted = true → granted' = true) :
      Relaxes (.allow granted) (.allow granted')

/-- A loop that asks for no more and found no more. -/
structure SegmentLoop.Relaxes (strict loose : SegmentLoop) : Prop where
  assessment : loose.assessment ⊆ strict.assessment
  dangerous : .dangerousCommand ∈ strict.assessment → .dangerousCommand ∈ loose.assessment
  needsPrompt : strict.needsPrompt = [] → loose.needsPrompt = []
  allSegmentsGranted : strict.allSegmentsGranted = true → loose.allSegmentsGranted = true

section

variable {parse : ShellParser} {glob : GlobCompiler} {cmd : Text} {less more : PermissionState}
variable {honorSafeLists : Bool}

theorem matchesCommandPrefix_self (cmd : Text) : matchesCommandPrefix cmd cmd = true := by
  simp [matchesCommandPrefix]

/-- An exact grant of a segment is a grant of it. -/
theorem matchedGrant_of_mem {state : PermissionState} {words : List Text}
    (h : joinWords words ∈ state.allowedBashCommands) : matchedGrant glob state words = true := by
  unfold matchedGrant matchedCommandGrant
  rw [Bool.or_eq_true]
  left
  split
  · exact decide_eq_true h
  · exact List.any_eq_true.mpr ⟨_, h, matchesCommandPrefix_self _⟩

theorem matchedGrant_mono (hcommands : less.allowedBashCommands ⊆ more.allowedBashCommands)
    (hglobs : less.allowedBashGlobs ⊆ more.allowedBashGlobs) (words : List Text)
    (h : matchedGrant glob less words = true) : matchedGrant glob more words = true := by
  unfold matchedGrant matchedCommandGrant at h ⊢
  rw [Bool.or_eq_true] at h ⊢
  cases h with
  | inr h =>
    right
    rw [List.any_eq_true] at h ⊢
    obtain ⟨pattern, hmem, hmatch⟩ := h
    exact ⟨pattern, hglobs hmem, hmatch⟩
  | inl h =>
    left
    by_cases hpinned : alwaysAllowScopePinned words = true
    · rw [if_pos hpinned] at h ⊢
      exact decide_eq_true (hcommands (of_decide_eq_true h))
    · rw [if_neg hpinned, List.any_eq_true] at h ⊢
      obtain ⟨allowed, hmem, hmatch⟩ := h
      exact ⟨allowed, hcommands hmem, hmatch⟩

/-- More grants relax the verdict on a segment that both states deny or neither does. -/
theorem segmentVerdict_relaxes (hcommands : less.allowedBashCommands ⊆ more.allowedBashCommands)
    (hglobs : less.allowedBashGlobs ⊆ more.allowedBashGlobs) {words : List Text}
    (hdeny : isSetupCommand words = false →
      (findDeny less (joinWords words) = none ↔ findDeny more (joinWords words) = none)) :
    (segmentVerdict glob less honorSafeLists words).Relaxes
      (segmentVerdict glob more honorSafeLists words) := by
  have hgrant : matchedGrant glob less words = true → matchedGrant glob more words = true :=
    matchedGrant_mono hcommands hglobs words
  unfold segmentVerdict
  cases hsetup : isSetupCommand words with
  | true => exact .setup
  | false =>
    have hiff := hdeny hsetup
    simp only [Bool.false_eq_true, if_false]
    cases hless : findDeny less (joinWords words) with
    | some denied =>
      cases hmore : findDeny more (joinWords words) with
      | none => rw [hless, hmore] at hiff; simp at hiff
      | some denied' => exact .deny denied denied'
    | none =>
      rw [hiff.mp hless]
      dsimp only
      by_cases hdangerous : isDangerousCommandWords words = true
      · rw [if_pos hdangerous, if_pos hdangerous]
        exact .prompt _ hgrant
      rw [if_neg hdangerous, if_neg hdangerous]
      cases hspecial : isSpecialExecSurface words with
      | false =>
        simp only [Bool.false_and, Bool.false_eq_true, if_false]
        by_cases hless : (matchedGrant glob less words || (honorSafeLists && matchedSafe words)) = true
        · have hmore : (matchedGrant glob more words || (honorSafeLists && matchedSafe words)) = true := by
            rw [Bool.or_eq_true] at hless ⊢
            exact hless.imp_left hgrant
          rw [if_pos hless, if_pos hmore]
          exact .allow hgrant
        · rw [if_neg hless]
          split
          · exact .allowed (by simp) hgrant
          · exact .prompt _ hgrant
      | true =>
        simp only [Bool.true_and, Bool.not_eq_true']
        by_cases hmem : joinWords words ∈ less.allowedBashCommands
        · have hmem' := hcommands hmem
          rw [decide_eq_true hmem, decide_eq_true hmem', matchedGrant_of_mem hmem,
            matchedGrant_of_mem hmem']
          exact .allow id
        · rw [decide_eq_false hmem, if_pos rfl]
          by_cases hmem' : joinWords words ∈ more.allowedBashCommands
          · rw [decide_eq_true hmem', matchedGrant_of_mem hmem']
            exact .allowed (by simp) fun _ => rfl
          · rw [decide_eq_false hmem', if_pos rfl]
            exact .prompt _ hgrant

theorem SegmentLoop.Relaxes.note {strict loose : SegmentLoop} (h : strict.Relaxes loose)
    (rawWords : List Text) : (strict.note rawWords).Relaxes (loose.note rawWords) where
  assessment := by
    intro finding hmem
    unfold SegmentLoop.note at hmem ⊢
    dsimp only at hmem ⊢
    rw [mem_insertIf, mem_insertIf] at hmem ⊢
    exact hmem.imp_right fun hmem => hmem.imp_right fun hmem => h.assessment hmem
  dangerous := by
    unfold SegmentLoop.note
    dsimp only
    rw [mem_insertIf, mem_insertIf, mem_insertIf, mem_insertIf]
    exact fun hmem => hmem.imp_right fun hmem => hmem.imp_right h.dangerous
  needsPrompt := h.needsPrompt
  allSegmentsGranted := h.allSegmentsGranted

theorem SegmentLoop.Relaxes.settle {strict loose : SegmentLoop} (h : strict.Relaxes loose)
    (words : List Text) {verdict verdict' : SegmentVerdict} (hverdict : verdict.Relaxes verdict') :
    (strict.settle words verdict).Relaxes (loose.settle words verdict') := by
  cases hverdict with
  | setup => exact h
  | deny denied denied' => exact h
  | prompt finding hgranted =>
    constructor
    · cases finding with
      | none => exact h.assessment
      | some finding => exact Finset.insert_subset_insert finding h.assessment
    · cases finding with
      | none => exact h.dangerous
      | some finding =>
        intro hmem
        rw [SegmentLoop.settle, Finset.mem_insert] at hmem ⊢
        exact hmem.imp_right h.dangerous
    · intro hnil
      exact absurd hnil (List.append_ne_nil_of_right_ne_nil _ (List.cons_ne_nil _ _))
    · simp only [SegmentLoop.settle, Bool.and_eq_true]
      exact fun hall => ⟨h.allSegmentsGranted hall.1, hgranted hall.2⟩
  | @allowed finding granted granted' hfinding hgranted =>
    constructor
    · cases finding with
      | none => exact h.assessment
      | some finding => exact h.assessment.trans (Finset.subset_insert finding _)
    · cases finding with
      | none => exact h.dangerous
      | some finding =>
        intro hmem
        rw [SegmentLoop.settle, Finset.mem_insert] at hmem
        cases hmem with
        | inl heq => exact absurd (congrArg some heq.symm) hfinding
        | inr hmem => exact h.dangerous hmem
    · intro hnil
      exact absurd hnil (List.append_ne_nil_of_right_ne_nil _ (List.cons_ne_nil _ _))
    · simp only [SegmentLoop.settle, Bool.and_eq_true]
      exact fun hall => ⟨h.allSegmentsGranted hall.1, hgranted hall.2⟩
  | allow hgranted =>
    constructor
    · exact h.assessment
    · exact h.dangerous
    · exact h.needsPrompt
    · simp only [SegmentLoop.settle, Bool.and_eq_true]
      exact fun hall => ⟨h.allSegmentsGranted hall.1, hgranted hall.2⟩

theorem SegmentVerdict.Relaxes.deny_iff {verdict verdict' : SegmentVerdict}
    (h : verdict.Relaxes verdict') :
    (∃ denied, verdict = .deny denied) ↔ ∃ denied, verdict' = .deny denied := by
  cases h <;> simp

theorem evaluateSegments_relaxes {segments : List PlainCommand}
    (hverdicts : ∀ segment ∈ segments,
      (segmentVerdict glob less honorSafeLists (unwrapWrappers segment.words)).Relaxes
        (segmentVerdict glob more honorSafeLists (unwrapWrappers segment.words)))
    {strict loose : SegmentLoop} (h : strict.Relaxes loose)
    (hnone : (evaluateSegments glob less honorSafeLists strict segments).2 = none) :
    (evaluateSegments glob more honorSafeLists loose segments).2 = none ∧
      (evaluateSegments glob less honorSafeLists strict segments).1.Relaxes
        (evaluateSegments glob more honorSafeLists loose segments).1 := by
  induction segments generalizing strict loose with
  | nil => exact ⟨rfl, h⟩
  | cons first rest ih =>
    rw [List.forall_mem_cons] at hverdicts
    have hless := (evaluateSegments_snd_eq_none_iff _ _).mp hnone first List.mem_cons_self
    have hmore : ∀ denied,
        segmentVerdict glob more honorSafeLists (unwrapWrappers first.words) ≠ .deny denied := by
      intro denied hdenied
      obtain ⟨denied', hdenied'⟩ := hverdicts.1.deny_iff.mpr ⟨denied, hdenied⟩
      exact hless denied' hdenied'
    rw [evaluateSegments_of_not_deny hless] at hnone ⊢
    rw [evaluateSegments_of_not_deny hmore]
    exact ih hverdicts.2 ((h.note first.words).settle _ hverdicts.1) hnone

theorem wholeScriptGrant_mono (hcommands : less.allowedBashCommands ⊆ more.allowedBashCommands)
    (segments : List PlainCommand) (h : wholeScriptGrant parse cmd segments less = true) :
    wholeScriptGrant parse cmd segments more = true := by
  unfold wholeScriptGrant at h ⊢
  rw [Bool.or_eq_true] at h ⊢
  cases h with
  | inl h => exact Or.inl (decide_eq_true (hcommands (of_decide_eq_true h)))
  | inr h =>
    right
    split at h
    · simp only [Bool.and_eq_true, decide_eq_true_eq] at h ⊢
      exact ⟨h.1, hcommands h.2⟩
    · contradiction

theorem constrainsBroadGrant_mono {few many : BashSecurityAssessment} (h : few ⊆ many)
    (hmany : constrainsBroadGrant many = false) : constrainsBroadGrant few = false := by
  unfold constrainsBroadGrant at hmany ⊢
  rw [decide_eq_false_iff_not] at hmany ⊢
  rintro ⟨finding, hmem, hfloor⟩
  exact hmany ⟨finding, h hmem, hfloor⟩

/-- A request with no more findings and no fewer exact grants is held back no more. -/
theorem floor_mono {strict loose : BashEvaluation} (hassessment : loose.assessment ⊆ strict.assessment)
    (hexact : strict.exactGrant = true → loose.exactGrant = true)
    (h : bashRequestFloorRequiresPrompt strict = false) :
    bashRequestFloorRequiresPrompt loose = false := by
  unfold bashRequestFloorRequiresPrompt at h ⊢
  rw [Bool.and_eq_false_iff, Bool.not_eq_false'] at h ⊢
  exact h.imp hexact (constrainsBroadGrant_mono hassessment)

end

section

variable {parse : ShellParser} {glob : GlobCompiler} {cmd : Text} {less more : PermissionState}
variable {honorSafeLists : Bool} {yoloPin yoloPin' : Option Text} {opts : BashGrantOpts}

theorem segmentsAllow_mono {strict loose : BashEvaluation} {strictLoop looseLoop : SegmentLoop}
    {exact exact' : Bool} (hstrict : Undenied strict strictLoop exact)
    (hloose : Undenied loose looseLoop exact') (hrelax : strictLoop.Relaxes looseLoop)
    (hexact : exact = true → exact' = true)
    (hpersisted : persistedBashAutoAllows less cmd yoloPin = true →
      persistedBashAutoAllows more cmd yoloPin' = true)
    (h : segmentsAllow cmd strict less yoloPin opts = true) :
    segmentsAllow cmd loose more yoloPin' opts = true := by
  unfold segmentsAllow at h ⊢
  rw [hstrict.segments] at h
  rw [hloose.segments]
  by_cases hnil : strictLoop.needsPrompt = []
  · rw [if_pos hnil] at h
    rw [if_pos (hrelax.needsPrompt hnil)]
    dsimp only at h ⊢
    rw [Bool.or_eq_true, hstrict.allSegmentsGranted] at h
    rw [Bool.or_eq_true, hloose.allSegmentsGranted]
    exact h.imp_right hrelax.allSegmentsGranted
  · rw [if_neg hnil] at h
    dsimp only at h
    obtain ⟨hblanket, hgranted⟩ := Bool.and_eq_true_iff.mp h
    by_cases hnil' : looseLoop.needsPrompt = []
    · rw [if_pos hnil']
      dsimp only
      rw [Bool.or_eq_true]
      exact Or.inl (opts.blanket_honors hblanket)
    · rw [if_neg hnil']
      dsimp only
      rw [hblanket, Bool.true_and]
      have hdangerous : (.dangerousCommand ∈ loose.assessment) = (.dangerousCommand ∈ strict.assessment) := by
        rw [hloose.assessment, hstrict.assessment, eq_iff_iff]
        exact ⟨fun hmem => hrelax.assessment hmem, hrelax.dangerous⟩
      simp only [hdangerous]
      split
      · rename_i hcautious
        rw [if_pos hcautious, hstrict.exactGrant] at hgranted
        rw [hloose.exactGrant]
        exact hexact hgranted
      · rename_i hcautious
        rw [if_neg hcautious] at hgranted
        exact hpersisted hgranted

/-- With verdicts that relax, a decomposed script stays allowed. -/
theorem allows_decomposed_mono {parsed : ParsedShell} {segments : List PlainCommand}
    (hcommands : less.allowedBashCommands ⊆ more.allowedBashCommands)
    (hpersisted : persistedBashAutoAllows less cmd yoloPin = true →
      persistedBashAutoAllows more cmd yoloPin' = true)
    (hverdicts : ∀ segment ∈ segments,
      (segmentVerdict glob less honorSafeLists (unwrapWrappers segment.words)).Relaxes
        (segmentVerdict glob more honorSafeLists (unwrapWrappers segment.words)))
    (h : ∃ reason, bashGrantPreDecision cmd
      (evaluateDecomposed parse glob cmd less honorSafeLists parsed segments) less yoloPin opts =
        some (.allow, reason)) :
    ∃ reason, bashGrantPreDecision cmd
      (evaluateDecomposed parse glob cmd more honorSafeLists parsed segments) more yoloPin' opts =
        some (.allow, reason) := by
  have hnone : (evaluateSegments glob less honorSafeLists (startLoop parsed) segments).2 = none := by
    obtain ⟨reason, hreason⟩ := h
    exact no_deny_of_allows hreason
  have hstart : (startLoop parsed).Relaxes (startLoop parsed) :=
    { assessment := Finset.Subset.refl _, dangerous := id, needsPrompt := id
      allSegmentsGranted := id }
  obtain ⟨hnone', hrelax⟩ := evaluateSegments_relaxes hverdicts hstart hnone
  have hstrict := evaluateDecomposed_undenied parse cmd hnone
  have hloose := evaluateDecomposed_undenied parse cmd hnone'
  obtain ⟨hfloor, hallow⟩ := (allows_iff _).mp h
  have hexact : wholeScriptGrant parse cmd segments less = true →
      wholeScriptGrant parse cmd segments more = true := wholeScriptGrant_mono hcommands segments
  refine (allows_iff _).mpr ⟨?_, segmentsAllow_mono hstrict hloose hrelax hexact hpersisted hallow⟩
  apply floor_mono _ _ hfloor
  · rw [hstrict.assessment, hloose.assessment]
    exact hrelax.assessment
  · rw [hstrict.exactGrant, hloose.exactGrant]
    exact hexact

/-- The denies of a script that does not decompose. -/
def recoveredDeny (cmd : Text) (projections : List (List Text)) (state : PermissionState) :
    Option SegmentEvaluation :=
  (rawDenyRejection cmd state).or
    (projections.findSome? fun words => rawDenyRejection (joinWords (unwrapWrappers words)) state)

theorem rawDenyRejection_eq_none_iff (cmd : Text) (state : PermissionState) :
    rawDenyRejection cmd state = none ↔ findDeny state cmd = none := by
  unfold rawDenyRejection
  rw [Option.map_eq_none_iff]

theorem recoveredDeny_eq_none_iff (cmd : Text) (projections : List (List Text))
    (state : PermissionState) :
    recoveredDeny cmd projections state = none ↔ findDeny state cmd = none ∧
      ∀ words ∈ projections, findDeny state (joinWords (unwrapWrappers words)) = none := by
  unfold recoveredDeny
  simp only [Option.or_eq_none_iff, List.findSome?_eq_none_iff, rawDenyRejection_eq_none_iff]

theorem recoveredDeny_reject {projections : List (List Text)} {state : PermissionState}
    {evaluation : SegmentEvaluation} (h : recoveredDeny cmd projections state = some evaluation) :
    ∃ reason, evaluation = .reject reason := by
  have hraw : ∀ text, rawDenyRejection text state = some evaluation →
      ∃ reason, evaluation = .reject reason := by
    intro text htext
    obtain ⟨denied, _, hdenied⟩ := Option.map_eq_some_iff.mp htext
    exact ⟨denyReason denied, hdenied.symm⟩
  unfold recoveredDeny at h
  rw [Option.or_eq_some_iff] at h
  cases h with
  | inl h => exact hraw cmd h
  | inr h =>
    obtain ⟨words, _, hwords⟩ := List.exists_of_findSome?_eq_some h.2
    exact hraw _ hwords

theorem findDeny_congr (hdenies : ∀ denied,
      denied ∈ less.disallowedBashCommands ↔ denied ∈ more.disallowedBashCommands) (text : Text) :
    findDeny less text = none ↔ findDeny more text = none := by
  rw [findDeny_eq_none_iff, findDeny_eq_none_iff]
  constructor
  · intro h denied hmem
    exact h denied ((hdenies denied).mpr hmem)
  · intro h denied hmem
    exact h denied ((hdenies denied).mp hmem)

/-- What a script that does not decompose is evaluated to. -/
structure Undecomposed (evaluation : BashEvaluation) (cmd : Text) (projections : List (List Text))
    (assessment : BashSecurityAssessment) (state : PermissionState) : Prop where
  segments : evaluation.segments = (recoveredDeny cmd projections state).getD .unparseable
  exactGrant : evaluation.exactGrant = decide (cmd ∈ state.allowedBashCommands)
  assessment : evaluation.assessment = assessment

/-- A script that does not decompose stays allowed with more grants and the same denies. -/
theorem allows_undecomposed_mono {strict loose : BashEvaluation} {projections : List (List Text)}
    {assessment : BashSecurityAssessment}
    (hstrict : Undecomposed strict cmd projections assessment less)
    (hloose : Undecomposed loose cmd projections assessment more)
    (hcommands : less.allowedBashCommands ⊆ more.allowedBashCommands)
    (hdenies : ∀ denied,
      denied ∈ less.disallowedBashCommands ↔ denied ∈ more.disallowedBashCommands)
    (hpersisted : persistedBashAutoAllows less cmd yoloPin = true →
      persistedBashAutoAllows more cmd yoloPin' = true)
    (h : ∃ reason, bashGrantPreDecision cmd strict less yoloPin opts = some (.allow, reason)) :
    ∃ reason, bashGrantPreDecision cmd loose more yoloPin' opts = some (.allow, reason) := by
  obtain ⟨hfloor, hallow⟩ := (allows_iff _).mp h
  have hexact : strict.exactGrant = true → loose.exactGrant = true := by
    rw [hstrict.exactGrant, hloose.exactGrant, decide_eq_true_eq, decide_eq_true_eq]
    exact fun hmem => hcommands hmem
  have hnone : recoveredDeny cmd projections less = none := by
    cases hdeny : recoveredDeny cmd projections less with
    | none => rfl
    | some evaluation =>
      obtain ⟨reason, rfl⟩ := recoveredDeny_reject hdeny
      unfold segmentsAllow at hallow
      rw [hstrict.segments, hdeny] at hallow
      contradiction
  have hnone' : recoveredDeny cmd projections more = none := by
    rw [recoveredDeny_eq_none_iff] at hnone ⊢
    refine ⟨(findDeny_congr hdenies cmd).mp hnone.1, fun words hwords => ?_⟩
    exact (findDeny_congr hdenies _).mp (hnone.2 words hwords)
  refine (allows_iff _).mpr ⟨?_, ?_⟩
  · apply floor_mono _ hexact hfloor
    rw [hstrict.assessment, hloose.assessment]
  · unfold segmentsAllow at hallow ⊢
    rw [hstrict.segments, hnone] at hallow
    rw [hloose.segments, hnone']
    dsimp only [Option.getD_none] at hallow ⊢
    obtain ⟨hblanket, hgranted⟩ := Bool.and_eq_true_iff.mp hallow
    rw [hblanket, Bool.true_and]
    split
    · rename_i hconservative
      rw [if_pos hconservative] at hgranted
      exact hexact hgranted
    · rename_i hconservative
      rw [if_neg hconservative] at hgranted
      exact hpersisted hgranted

theorem evaluateUnparsed_undecomposed (cmd : Text) (state : PermissionState) :
    Undecomposed (evaluateUnparsed cmd state) cmd []
      (insertIf (scriptMayInvokeGit cmd) .execOrAmbientGit {.unparseableShell}) state where
  segments := by
    unfold recoveredDeny
    rw [List.findSome?_nil, Option.or_none]
    rfl
  exactGrant := rfl
  assessment := rfl

theorem evaluateRecovered_undecomposed (cmd : Text) (state : PermissionState)
    (parsed : ParsedShell) :
    Undecomposed (evaluateRecovered cmd state parsed) cmd
      (PermissionScript.analyze parsed).projections
      (evaluateRecovered cmd .default parsed).assessment state where
  segments := rfl
  exactGrant := rfl
  assessment := rfl

theorem persistedBashAutoAllows_mono (h : less.GrantsLe more)
    (hpersisted : persistedBashAutoAllows less cmd yoloPin = true) :
    persistedBashAutoAllows more cmd yoloPin = true := by
  unfold persistedBashAutoAllows at hpersisted ⊢
  simp only [Bool.or_eq_true, Bool.and_eq_true, decide_eq_true_eq] at hpersisted ⊢
  exact hpersisted.imp (And.imp_left h.execute) fun hmem => h.commands hmem

theorem preDecision_allow_mono (h : less.GrantsLe more)
    (hallow : ∃ reason, preDecision parse glob cmd less honorSafeLists yoloPin opts =
      some (.allow, reason)) :
    ∃ reason, preDecision parse glob cmd more honorSafeLists yoloPin opts =
      some (.allow, reason) := by
  unfold preDecision evaluateBash at hallow ⊢
  cases hparse : parse cmd with
  | none =>
    rw [hparse] at hallow
    exact allows_undecomposed_mono (evaluateUnparsed_undecomposed cmd less)
      (evaluateUnparsed_undecomposed cmd more) h.commands h.denies
      (persistedBashAutoAllows_mono h) hallow
  | some parsed =>
    rw [hparse] at hallow
    dsimp only at hallow ⊢
    cases hsegments : parsed.segments with
    | none =>
      rw [hsegments] at hallow
      exact allows_undecomposed_mono (evaluateRecovered_undecomposed cmd less parsed)
        (evaluateRecovered_undecomposed cmd more parsed) h.commands h.denies
        (persistedBashAutoAllows_mono h) hallow
    | some segments =>
      rw [hsegments] at hallow
      apply allows_decomposed_mono h.commands (persistedBashAutoAllows_mono h) _ hallow
      intro segment _
      exact segmentVerdict_relaxes h.commands h.globs fun _ => findDeny_congr h.denies _

/-- No remembered deny matches a segment of the script. -/
def PermissionState.DeniesNothingOf (state : PermissionState) (parse : ShellParser) (cmd : Text) :
    Prop :=
  ∀ parsed segments, parse cmd = some parsed → parsed.segments = some segments →
    ∀ segment ∈ segments, isSetupCommand (unwrapWrappers segment.words) = false →
      ∀ denied ∈ state.disallowedBashCommands,
        matchesCommandPrefix (joinWords (unwrapWrappers segment.words)) denied = false

theorem allow_of_effective {h : BashCommandHighlights}
    (heffective : alwaysAllowRowIsEffective parse glob cmd = true)
    (hprimary : primaryCommandFromScript parse cmd = some h) :
    ∃ reason, preDecision parse glob cmd
      (persistBashAlwaysAllow parse .default cmd (defaultRowLabel h)) true none .preClassifier =
        some (.allow, reason) := by
  unfold alwaysAllowRowIsEffective at heffective
  rw [hprimary] at heffective
  dsimp only at heffective
  split at heffective
  · split at heffective
    · rename_i reason hreason
      exact ⟨reason, hreason⟩
    · contradiction
  · contradiction

theorem persistBashAlwaysAllow_default_commands (parse : ShellParser) (cmd label : Text)
    (state : PermissionState) :
    (persistBashAlwaysAllow parse .default cmd label).allowedBashCommands ⊆
      (persistBashAlwaysAllow parse state cmd label).allowedBashCommands := by
  unfold persistBashAlwaysAllow
  cases bashAlwaysAllowKey parse cmd label with
  | none => exact List.nil_subset _
  | some key =>
    intro allowed hmem
    have hkey : allowed = key := by
      simpa [PermissionState.allowCommand, PermissionState.default] using hmem
    rw [hkey]
    exact List.mem_insert_self

theorem persistBashAlwaysAllow_default (parse : ShellParser) (cmd label : Text) :
    (persistBashAlwaysAllow parse .default cmd label).allowBashExecute = false ∧
      (persistBashAlwaysAllow parse .default cmd label).allowedBashGlobs = [] ∧
        (persistBashAlwaysAllow parse .default cmd label).disallowedBashCommands = [] := by
  unfold persistBashAlwaysAllow
  cases bashAlwaysAllowKey parse cmd label <;> exact ⟨rfl, rfl, rfl⟩

theorem allow_of_kept_row {h : BashCommandHighlights} {earlier live : PermissionState}
    (heffective : alwaysAllowRowIsEffective parse glob cmd = true)
    (hprimary : primaryCommandFromScript parse cmd = some h)
    (hkept : (persistBashAlwaysAllow parse earlier cmd (defaultRowLabel h)).allowedBashCommands ⊆
      live.allowedBashCommands)
    (hdenies : live.DeniesNothingOf parse cmd) (yoloPin : Option Text) :
    ∃ reason, preDecision parse glob cmd live true yoloPin .preClassifier =
      some (.allow, reason) := by
  obtain ⟨parsed, segments, _, hparse, hsegments, _⟩ := primary_segment hprimary
  obtain ⟨hexecute, hglobs, hnone⟩ :=
    persistBashAlwaysAllow_default parse cmd (defaultRowLabel h)
  have hallow := allow_of_effective heffective hprimary
  have hcommands : (persistBashAlwaysAllow parse .default cmd
      (defaultRowLabel h)).allowedBashCommands ⊆ live.allowedBashCommands :=
    List.Subset.trans (persistBashAlwaysAllow_default_commands parse cmd _ earlier) hkept
  unfold preDecision at hallow ⊢
  rw [evaluateBash_of_segments hparse hsegments] at hallow ⊢
  apply allows_decomposed_mono hcommands _ _ hallow
  · intro hpersisted
    unfold persistedBashAutoAllows at hpersisted ⊢
    rw [hexecute, Bool.false_and, Bool.false_or, decide_eq_true_eq] at hpersisted
    rw [Bool.or_eq_true]
    exact Or.inr (decide_eq_true (hcommands hpersisted))
  · intro segment hmem
    apply segmentVerdict_relaxes hcommands
    · rw [hglobs]
      exact List.nil_subset _
    · intro hsetup
      rw [findDeny_eq_none_iff, findDeny_eq_none_iff, hnone]
      exact iff_of_true (fun _ hmem => absurd hmem List.not_mem_nil)
        (hdenies parsed segments hparse hsegments segment hmem hsetup)

end

/--
More grants with the same denies allow whatever fewer grants allow; hence the
answer of an effective always-allow row lets the script through in every state
that keeps it and denies nothing of the script.
-/
theorem more_grants_allow_more (parse : ShellParser) (glob : GlobCompiler) (cmd : Text) :
    (∀ (honorSafeLists : Bool) (yoloPin : Option Text) (opts : BashGrantOpts)
      (less more : PermissionState), less.GrantsLe more →
        (∃ reason, preDecision parse glob cmd less honorSafeLists yoloPin opts =
          some (.allow, reason)) →
        ∃ reason, preDecision parse glob cmd more honorSafeLists yoloPin opts =
          some (.allow, reason)) ∧
    (alwaysAllowRowIsEffective parse glob cmd = true →
      ∀ h, primaryCommandFromScript parse cmd = some h → ∀ earlier live : PermissionState,
        (recordPromptOutcome parse glob earlier cmd
          (.allowAlwaysBashCommand (defaultRowLabel h))).1.allowedBashCommands ⊆
            live.allowedBashCommands →
        live.DeniesNothingOf parse cmd → ∀ yoloPin,
          ∃ reason, preDecision parse glob cmd live true yoloPin .preClassifier =
            some (.allow, reason)) := by
  constructor
  · intro honorSafeLists yoloPin opts less more hmore hallow
    exact preDecision_allow_mono hmore hallow
  · intro heffective h hprimary earlier live hkept hdenies yoloPin
    exact allow_of_kept_row heffective hprimary hkept hdenies yoloPin

/-- The parse of `npm test` and of nothing else. -/
def parseTest (script : Text) : Option ParsedShell :=
  if script = "npm test".toList then
    some
      { segments := some [{ words := ["npm".toList, "test".toList], spanStart := 0, spanEnd := 8 }]
        complete := true
        statements := []
        writes :=
          { unextractedWriteRedirect := false, redirectPaths := [], wordPaths := [],
            creationPaths := [] }
        hasCwdChange := false
        assignmentKeys := []
        opaqueShell := false }
  else none

theorem npmTest_row_kept :
    ∃ reason, preDecision parseTest (fun _ => none) "npm test".toList
      { PermissionState.default with
        allowedBashCommands := ["npm test".toList, "ls -a".toList] } true none .preClassifier =
        some (.allow, reason) := by
  apply (more_grants_allow_more parseTest (fun _ => none) "npm test".toList).2
    (by decide +kernel)
    { before := [], highlightedWords := ["npm".toList, "test".toList], after := [] }
    (by decide +kernel) .default
  · decide +kernel
  · intro _ _ _ _ _ _ _ denied hdenied
    contradiction

end Ezer.Permission
