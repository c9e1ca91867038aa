import Ezer.Permission.Segments

/-!
# The decision before the prompt

A request is allowed before any prompt exactly when no finding holds it back
and its segments, or a grant on the whole script, allow it.
-/

namespace Ezer.Permission

open Ezer.Lib

section

variable {parse : ShellParser} {glob : GlobCompiler} {cmd : Text} {state : PermissionState}
variable {honorSafeLists : Bool} {yoloPin : Option Text} {opts : BashGrantOpts}

/-- Whether the segments, or a grant on the whole script, allow a request. -/
def segmentsAllow (cmd : Text) (evaluation : BashEvaluation) (state : PermissionState)
    (yoloPin : Option Text) (opts : BashGrantOpts) : Bool :=
  match evaluation.segments with
  | .reject _ => false
  | .autoAllow _ => opts.honorSafeLists || evaluation.allSegmentsGranted
  | .needsPrompts _ =>
    opts.allowBlanket &&
      if opts.conservativeBlanket && decide (.dangerousCommand ∈ evaluation.assessment) then
        evaluation.exactGrant
      else persistedBashAutoAllows state cmd yoloPin
  | .unparseable =>
    opts.allowBlanket &&
      if opts.conservativeBlanket then evaluation.exactGrant
      else persistedBashAutoAllows state cmd yoloPin

theorem exists_grantIf_iff (condition : Bool) :
    (∃ reason, grantIf condition = some (.allow, reason)) ↔ condition = true := by
  cases condition <;> simp [grantIf]

/-- A request is allowed exactly when no finding holds it back and its segments allow it. -/
theorem allows_iff (evaluation : BashEvaluation) :
    (∃ reason, bashGrantPreDecision cmd evaluation state yoloPin opts = some (.allow, reason)) ↔
      bashRequestFloorRequiresPrompt evaluation = false ∧
        segmentsAllow cmd evaluation state yoloPin opts = true := by
  unfold bashGrantPreDecision segmentsAllow
  cases evaluation.segments with
  | reject reason => simp
  | autoAllow viaSessionGrant =>
    cases bashRequestFloorRequiresPrompt evaluation <;> cases opts.honorSafeLists <;>
      cases evaluation.allSegmentsGranted <;> simp
  | needsPrompts | unparseable =>
    cases bashRequestFloorRequiresPrompt evaluation
    · cases opts.allowBlanket
      · simp
      · simp only [Bool.false_eq_true, if_false, Bool.not_true, Bool.true_and, true_and]
        split
        · exact exists_grantIf_iff _
        · exact exists_grantIf_iff _
    · simp

theorem not_mem_of_floor {evaluation : BashEvaluation}
    (h : bashRequestFloorRequiresPrompt evaluation = false) (hexact : evaluation.exactGrant = false)
    {finding : ClassifierSecurityFinding} (hfloor : finding.isGrantFloor = true) :
    finding ∉ evaluation.assessment := by
  intro hmem
  unfold bashRequestFloorRequiresPrompt constrainsBroadGrant at h
  rw [hexact, Bool.not_false, Bool.true_and, decide_eq_false_iff_not] at h
  exact h ⟨finding, hmem, hfloor⟩

theorem evaluateBash_of_segments {parsed : ParsedShell} {segments : List PlainCommand}
    (hparse : parse cmd = some parsed) (hsegments : parsed.segments = some segments) :
    evaluateBash parse glob cmd state honorSafeLists =
      evaluateDecomposed parse glob cmd state honorSafeLists parsed segments := by
  unfold evaluateBash
  rw [hparse]
  simp only [hsegments]

/-- A deny of one segment rejects the script. -/
theorem evaluateDecomposed_of_deny {parsed : ParsedShell} {segments : List PlainCommand}
    {denied : Text}
    (h : (evaluateSegments glob state honorSafeLists (startLoop parsed) segments).2 = some denied) :
    (evaluateDecomposed parse glob cmd state honorSafeLists parsed segments).segments =
      .reject (denyReason denied) := by
  unfold evaluateDecomposed
  generalize evaluateSegments glob state honorSafeLists (startLoop parsed) segments = result at h
  obtain ⟨loop, outcome⟩ := result
  dsimp only at h
  subst h
  rfl

/-- An allowed script has no denied segment. -/
theorem no_deny_of_allows {parsed : ParsedShell} {segments : List PlainCommand}
    {reason : DecisionReason}
    (h : bashGrantPreDecision cmd
      (evaluateDecomposed parse glob cmd state honorSafeLists parsed segments) state yoloPin opts =
        some (.allow, reason)) :
    (evaluateSegments glob state honorSafeLists (startLoop parsed) segments).2 = none := by
  cases hdeny : (evaluateSegments glob state honorSafeLists (startLoop parsed) segments).2 with
  | none => rfl
  | some denied =>
    obtain ⟨_, hallow⟩ := (allows_iff _).mp ⟨reason, h⟩
    unfold segmentsAllow at hallow
    rw [evaluateDecomposed_of_deny hdeny] at hallow
    contradiction

end

/-- What the evaluation of a script says when no segment is denied. -/
structure Undenied (evaluation : BashEvaluation) (loop : SegmentLoop) (exactGrant : Bool) :
    Prop where
  segments : evaluation.segments =
    if loop.needsPrompt = [] then .autoAllow loop.viaSessionGrant
    else .needsPrompts loop.needsPrompt
  exactGrant : evaluation.exactGrant = exactGrant
  allSegmentsGranted : evaluation.allSegmentsGranted = loop.allSegmentsGranted
  assessment : evaluation.assessment = loop.assessment

theorem evaluateDecomposed_undenied (parse : ShellParser) (cmd : Text) {glob : GlobCompiler}
    {state : PermissionState} {honorSafeLists : Bool} {parsed : ParsedShell}
    {segments : List PlainCommand}
    (h : (evaluateSegments glob state honorSafeLists (startLoop parsed) segments).2 = none) :
    Undenied (evaluateDecomposed parse glob cmd state honorSafeLists parsed segments)
      (evaluateSegments glob state honorSafeLists (startLoop parsed) segments).1
      (wholeScriptGrant parse cmd segments state) := by
  unfold evaluateDecomposed
  generalize evaluateSegments glob state honorSafeLists (startLoop parsed) segments = result at h
  obtain ⟨loop, outcome⟩ := result
  dsimp only at h
  subst h
  exact { segments := rfl, exactGrant := rfl, allSegmentsGranted := rfl, assessment := rfl }

end Ezer.Permission
