import Ezer.Permission.Decision
import Ezer.Permission.Peeling

/-!
# Dangerous commands behind wrappers

Without a grant on the whole script, a script is allowed before the classifier
only if no segment is a dangerous command behind any number of wrappers. Up to
the bound the peel sees the command itself; past the bound the segment is an
execution risk, which no broad grant vouches for.
-/

namespace Ezer.Permission

open Ezer.Lib

section

variable {parse : ShellParser} {glob : GlobCompiler} {cmd : Text} {state : PermissionState}
variable {honorSafeLists : Bool} {yoloPin : Option Text} {parsed : ParsedShell}
variable {segments : List PlainCommand}

theorem segmentsAllow_of_dangerous {evaluation : BashEvaluation} {asked : List Text}
    (hsegments : evaluation.segments = .needsPrompts asked)
    (hdangerous : .dangerousCommand ∈ evaluation.assessment) :
    segmentsAllow cmd evaluation state yoloPin .preClassifier = evaluation.exactGrant := by
  unfold segmentsAllow
  rw [hsegments]
  simp [BashGrantOpts.preClassifier, hdangerous]

theorem not_dangerous_of_allows {reason : DecisionReason}
    (h : bashGrantPreDecision cmd
      (evaluateDecomposed parse glob cmd state honorSafeLists parsed segments) state yoloPin
        .preClassifier = some (.allow, reason))
    (hexact : wholeScriptGrant parse cmd segments state = false) {segment : PlainCommand}
    (hmem : segment ∈ segments) :
    isDangerousCommandWords (unwrapWrappers segment.words) = false := by
  have hnone := no_deny_of_allows h
  have hundenied := evaluateDecomposed_undenied parse cmd hnone
  obtain ⟨_, hallow⟩ := (allows_iff _).mp ⟨reason, h⟩
  rw [Bool.eq_false_iff]
  intro hdangerous
  have hsetup : isSetupCommand (unwrapWrappers segment.words) = false := by
    rw [Bool.eq_false_iff]
    intro hsetup
    rw [not_dangerous_of_setup hsetup] at hdangerous
    contradiction
  have hdeny := (evaluateSegments_snd_eq_none_iff _ _).mp hnone segment hmem
  obtain ⟨hprompt, hfound⟩ :=
    prompt_mem hnone hmem (segmentVerdict_of_dangerous hsetup hdeny hdangerous)
  have hsegments := hundenied.segments
  rw [if_neg (List.ne_nil_of_mem hprompt)] at hsegments
  have hassessment := hfound .dangerousCommand rfl
  rw [← hundenied.assessment] at hassessment
  rw [segmentsAllow_of_dangerous hsegments hassessment, hundenied.exactGrant, hexact] at hallow
  contradiction

theorem not_exhausted_of_allows {opts : BashGrantOpts} {reason : DecisionReason}
    (h : bashGrantPreDecision cmd
      (evaluateDecomposed parse glob cmd state honorSafeLists parsed segments) state yoloPin opts =
        some (.allow, reason))
    (hexact : wholeScriptGrant parse cmd segments state = false) {segment : PlainCommand}
    (hmem : segment ∈ segments) :
    (unwrapWrappersChecked segment.words).exhausted = false := by
  have hnone := no_deny_of_allows h
  have hundenied := evaluateDecomposed_undenied parse cmd hnone
  obtain ⟨hfloor, _⟩ := (allows_iff _).mp ⟨reason, h⟩
  rw [Bool.eq_false_iff]
  intro hexhausted
  have hrisk := execOrAmbientGit_mem hnone hmem (execRisk_of_exhausted hexhausted)
  rw [← hundenied.assessment] at hrisk
  exact not_mem_of_floor hfloor (hundenied.exactGrant.trans hexact) rfl hrisk

end

/--
Without a grant on the whole script, a script is allowed before the classifier
only if no segment is a dangerous command once all of its wrappers came off.
-/
theorem allowed_segments_not_dangerous (parse : ShellParser) (glob : GlobCompiler) (cmd : Text)
    (state : PermissionState) (honorSafeLists : Bool) (yoloPin : Option Text)
    (parsed : ParsedShell) (segments : List PlainCommand) (reason : DecisionReason)
    (hparse : parse cmd = some parsed) (hsegments : parsed.segments = some segments)
    (hallow : preDecision parse glob cmd state honorSafeLists yoloPin .preClassifier =
      some (.allow, reason))
    (hexact : wholeScriptGrant parse cmd segments state = false) :
    ∀ segment ∈ segments, ∀ inner, Peels stripWrapperCommand segment.words inner →
      stripWrapperCommand inner = none → isDangerousCommandWords inner = false := by
  intro segment hmem inner hpeels hinner
  unfold preDecision at hallow
  rw [evaluateBash_of_segments hparse hsegments] at hallow
  rw [Peels.eq_unwrapWrappers (not_exhausted_of_allows hallow hexact hmem) hpeels hinner]
  exact not_dangerous_of_allows hallow hexact hmem

/-- The parse of `timeout 5 ls`. -/
def wrappedListing : ParsedShell where
  segments := some
    [{ words := ["timeout".toList, "5".toList, "ls".toList], spanStart := 0, spanEnd := 12 }]
  complete := true
  statements := []
  writes :=
    { unextractedWriteRedirect := false, redirectPaths := [], wordPaths := [],
      creationPaths := [] }
  hasCwdChange := false
  assignmentKeys := []
  opaqueShell := false

theorem wrappedListing_not_dangerous : isDangerousCommandWords ["ls".toList] = false :=
  allowed_segments_not_dangerous (fun _ => some wrappedListing) (fun _ => none)
    "timeout 5 ls".toList .default true none wrappedListing _ .safeCommand rfl rfl
    (by decide +kernel) (by decide +kernel) _ (List.mem_singleton_self _) ["ls".toList]
    (Relation.ReflTransGen.single (by decide +kernel)) (by decide +kernel)

end Ezer.Permission
