import Ezer.Permission.Commands
import Ezer.Permission.Script
import Mathlib.Data.Finset.Basic

/-!
# Evaluating a shell command against remembered grants

A command is split into segments. Each is peeled and compared with what the
user allowed or forbade before. The evaluation collects what static analysis
found; the decision before any prompt is read off it.
-/

namespace Ezer.Permission

open Ezer.Lib

/-- The remembered answers about shell commands. -/
structure PermissionState where
  allowBashExecute : Bool
  allowedBashCommands : List Text
  disallowedBashCommands : List Text
  allowedBashGlobs : List Text

/-- A state that remembers nothing. -/
def PermissionState.default : PermissionState where
  allowBashExecute := false
  allowedBashCommands := []
  disallowedBashCommands := []
  allowedBashGlobs := []

/-- A risk that static analysis found. -/
inductive ClassifierSecurityFinding where
  | failClosedPolicy
  | unparseableShell
  | unresolvedArgument
  | opaqueShell
  | execOrAmbientGit
  | envInjection
  | unvettedEnv
  | fileWrite
  | dangerousCommand
  | specialExecSurface
  deriving DecidableEq

/-- Whether a grant that does not name the whole command cannot vouch for the finding. -/
def ClassifierSecurityFinding.isGrantFloor : ClassifierSecurityFinding → Bool
  | .fileWrite => true
  | .unvettedEnv => true
  | .envInjection => true
  | .opaqueShell => true
  | .execOrAmbientGit => true
  | .specialExecSurface => true
  | _ => false

/-- The findings of one request. -/
abbrev BashSecurityAssessment := Finset ClassifierSecurityFinding

/-- The assessment with the finding added where the condition holds. -/
def insertIf (condition : Bool) (finding : ClassifierSecurityFinding)
    (assessment : BashSecurityAssessment) : BashSecurityAssessment :=
  if condition then insert finding assessment else assessment

/-- Whether a finding constrains a broad grant. -/
def constrainsBroadGrant (assessment : BashSecurityAssessment) : Bool :=
  decide (∃ finding ∈ assessment, finding.isGrantFloor = true)

/-- The outcome of the segments, before the checks on the whole script. -/
inductive SegmentEvaluation where
  | autoAllow (viaSessionGrant : Bool)
  | reject (reason : Text)
  | needsPrompts (segments : List Text)
  | unparseable

/-- The authorization facts of one request. -/
structure BashEvaluation where
  segments : SegmentEvaluation
  exactGrant : Bool
  allSegmentsGranted : Bool
  assessment : BashSecurityAssessment
  redirectWrite : Bool
  ambientSegments : Option (List (List Text))
  protectedPaths : List Text
  hasCwdChange : Bool
  recoveredEligible : Bool

/-- Writes that change nothing. -/
def isSafeWriteSink (path : Text) : Bool :=
  path ∈ ["/dev/null".toList, "/dev/stdout".toList, "/dev/stderr".toList]

/-- The finding of an environment risk. -/
def envRiskFinding : EnvRisk → Option ClassifierSecurityFinding
  | .injection => some .envInjection
  | .unvetted => some .unvettedEnv
  | .safe => none

/-- Why a remembered deny rejects. -/
def denyReason (denied : Text) : Text :=
  "User previously rejected `".toList ++ denied ++ "` in this project".toList

/-- The remembered deny that a command equals or extends. -/
def findDeny (state : PermissionState) (cmd : Text) : Option Text :=
  state.disallowedBashCommands.find? (matchesCommandPrefix cmd)

/-- The rejection by a remembered deny of a text that was not decomposed. -/
def rawDenyRejection (cmd : Text) (state : PermissionState) : Option SegmentEvaluation :=
  (findDeny state cmd).map fun denied => .reject (denyReason denied)

/-- What the remembered answers say of one segment. -/
inductive SegmentVerdict where
  | setup
  | deny (denied : Text)
  | prompt (finding : Option ClassifierSecurityFinding) (granted : Bool)
  | allow (granted : Bool)

/-- Whether a remembered command grants a segment. -/
def matchedCommandGrant (state : PermissionState) (words : List Text) : Bool :=
  if alwaysAllowScopePinned words then decide (joinWords words ∈ state.allowedBashCommands)
  else state.allowedBashCommands.any (matchesCommandPrefix (joinWords words))

/-- Whether a segment needs a grant that names it exactly. -/
def isSpecialExecSurface (words : List Text) : Bool :=
  kubectlHasUnsafeFlag words || rgHasUnsafeFlag words || psDumpsEnvironment words ||
    gitWordsHaveUnsafeQueryOption words

/-- Whether a segment is safe without a grant. -/
def matchedSafe (words : List Text) : Bool :=
  isSafeCommandWords words || isAlwaysSafeCommandWords words || isSafeCreationCommand words

section Parsed

variable (parse : ShellParser) (glob : GlobCompiler)

/-- Whether a remembered command or glob grants a segment. -/
def matchedGrant (state : PermissionState) (words : List Text) : Bool :=
  matchedCommandGrant state words ||
    state.allowedBashGlobs.any fun pattern => bashPatternMatchesCommand glob pattern (joinWords words)

/-- What the remembered answers say of the peeled words of a segment. -/
def segmentVerdict (state : PermissionState) (honorSafeLists : Bool) (words : List Text) :
    SegmentVerdict :=
  if isSetupCommand words then .setup
  else
    match findDeny state (joinWords words) with
    | some denied => .deny denied
    | none =>
      let granted := matchedGrant glob state words
      if isDangerousCommandWords words then .prompt (some .dangerousCommand) granted
      else if isSpecialExecSurface words && !decide (joinWords words ∈ state.allowedBashCommands)
      then .prompt (some .specialExecSurface) granted
      else if granted || (honorSafeLists && matchedSafe words) then .allow granted
      else .prompt none granted

/-- What the segments before this one added up to. -/
structure SegmentLoop where
  needsPrompt : List Text
  viaSessionGrant : Bool
  allSegmentsGranted : Bool
  execRisk : Bool
  hasGitCommand : Bool
  ambientRaw : List (List Text)
  assessment : BashSecurityAssessment

/-- Notes the facts of a segment that no grant changes. -/
def SegmentLoop.note (loop : SegmentLoop) (rawWords : List Text) : SegmentLoop :=
  let words := unwrapWrappers rawWords
  let facts := segmentExecFacts rawWords
  { loop with
    ambientRaw := loop.ambientRaw ++ [rawWords]
    execRisk := loop.execRisk || facts.execRisk
    hasGitCommand := loop.hasGitCommand || facts.hasGit
    assessment := insertIf facts.execRisk .execOrAmbientGit
      (insertIf (wordsAreOpaqueShell (words.map ShellWord.literal)) .opaqueShell loop.assessment) }

/-- Adds the verdict on a segment. -/
def SegmentLoop.settle (loop : SegmentLoop) (words : List Text) : SegmentVerdict → SegmentLoop
  | .setup => loop
  | .deny _ => loop
  | .prompt finding granted =>
    { loop with
      needsPrompt := loop.needsPrompt ++ [joinWords words]
      allSegmentsGranted := loop.allSegmentsGranted && granted
      assessment := match finding with
        | some finding => insert finding loop.assessment
        | none => loop.assessment }
  | .allow granted =>
    { loop with
      viaSessionGrant := loop.viaSessionGrant || granted
      allSegmentsGranted := loop.allSegmentsGranted && granted }

/-- Goes over the segments; a deny ends the loop. -/
def evaluateSegments (state : PermissionState) (honorSafeLists : Bool) (loop : SegmentLoop) :
    List PlainCommand → SegmentLoop × Option Text
  | [] => (loop, none)
  | parsed :: rest =>
    let noted := loop.note parsed.words
    let words := unwrapWrappers parsed.words
    match segmentVerdict glob state honorSafeLists words with
    | .deny denied => (noted, some denied)
    | verdict => evaluateSegments state honorSafeLists (noted.settle words verdict) rest

/-- Whether the words and their join are the same command to the shell. -/
def wordsJoinUnambiguously (words : List Text) : Bool :=
  match allCommandsFromScript parse (joinWords words) with
  | some [only] => only.spansWholeScript (joinWords words) && only.words == words
  | _ => false

/-- Whether a remembered command is the whole script. -/
def wholeScriptGrant (cmd : Text) (segments : List PlainCommand) (state : PermissionState) : Bool :=
  decide (cmd ∈ state.allowedBashCommands) ||
    (match segments with
    | [only] =>
      only.spansWholeScript cmd && wordsJoinUnambiguously parse only.words &&
        decide (joinWords only.words ∈ state.allowedBashCommands)
    | _ => false)

/-- The findings about the writes and the environment of a script. -/
def scriptAssessment (parsed : ParsedShell) (redirectWrite : Bool) : BashSecurityAssessment :=
  let writes := insertIf
    (redirectWrite || parsed.writes.wordPaths.any fun path => !isSafeWriteSink path) .fileWrite ∅
  match envRiskFinding (scriptEnvRisk parsed) with
  | some finding => insert finding writes
  | none => writes

/-- Whether a redirect of the script writes to a file. -/
def redirectWrites (parsed : ParsedShell) : Bool :=
  parsed.writes.unextractedWriteRedirect ||
    parsed.writes.redirectPaths.any fun path => !isSafeWriteSink path

/-- The paths that a script may write. -/
def protectedPaths (parsed : ParsedShell) : List Text :=
  parsed.writes.creationPaths ++ parsed.writes.wordPaths ++ parsed.writes.redirectPaths

/-- The findings about one recovered command. -/
def assessProjection (assessment : BashSecurityAssessment) (projection : List Text) :
    BashSecurityAssessment :=
  let words := unwrapWrappers projection
  insertIf (segmentExecFacts words).execRisk .execOrAmbientGit
    (insertIf (rgHasUnsafeFlag words) .specialExecSurface
      (insertIf (isDangerousCommandWords words) .dangerousCommand assessment))

/-- The evaluation of a script that does not parse. -/
def evaluateUnparsed (cmd : Text) (state : PermissionState) : BashEvaluation where
  segments := (rawDenyRejection cmd state).getD .unparseable
  exactGrant := decide (cmd ∈ state.allowedBashCommands)
  allSegmentsGranted := false
  assessment := insertIf (scriptMayInvokeGit cmd) .execOrAmbientGit {.unparseableShell}
  redirectWrite := true
  ambientSegments := none
  protectedPaths := []
  hasCwdChange := false
  recoveredEligible := false

/-- The evaluation of a script that parses and does not decompose. -/
def evaluateRecovered (cmd : Text) (state : PermissionState) (parsed : ParsedShell) :
    BashEvaluation :=
  let recovery := PermissionScript.analyze parsed
  let projections := recovery.projections
  let assessment := projections.foldl assessProjection
    (insertIf recovery.hasUnresolved .unresolvedArgument
      (scriptAssessment parsed (redirectWrites parsed)))
  { segments :=
      ((rawDenyRejection cmd state).or
        (projections.findSome? fun words =>
          rawDenyRejection (joinWords (unwrapWrappers words)) state)).getD .unparseable
    exactGrant := decide (cmd ∈ state.allowedBashCommands)
    allSegmentsGranted := false
    assessment := insertIf (scriptMayInvokeGit cmd) .execOrAmbientGit
      (insertIf parsed.opaqueShell .opaqueShell
        (insertIf (!recovery.eligible) .unparseableShell assessment))
    redirectWrite := redirectWrites parsed || !recovery.eligible
    ambientSegments := none
    protectedPaths := protectedPaths parsed
    hasCwdChange := parsed.hasCwdChange
    recoveredEligible := recovery.eligible }

/-- The start of the loop over the segments. -/
def startLoop (parsed : ParsedShell) : SegmentLoop where
  needsPrompt := []
  viaSessionGrant := false
  allSegmentsGranted := true
  execRisk := false
  hasGitCommand := false
  ambientRaw := []
  assessment := scriptAssessment parsed (redirectWrites parsed)

/-- The evaluation of a script that decomposes into segments. -/
def evaluateDecomposed (cmd : Text) (state : PermissionState) (honorSafeLists : Bool)
    (parsed : ParsedShell) (segments : List PlainCommand) : BashEvaluation :=
  let exactGrant := wholeScriptGrant parse cmd segments state
  match evaluateSegments glob state honorSafeLists (startLoop parsed) segments with
  | (loop, some denied) =>
    { segments := .reject (denyReason denied)
      exactGrant := exactGrant
      allSegmentsGranted := loop.allSegmentsGranted
      assessment := loop.assessment
      redirectWrite := redirectWrites parsed
      ambientSegments := none
      protectedPaths := []
      hasCwdChange := false
      recoveredEligible := false }
  | (loop, none) =>
    { segments :=
        if loop.needsPrompt = [] then .autoAllow loop.viaSessionGrant
        else .needsPrompts loop.needsPrompt
      exactGrant := exactGrant
      allSegmentsGranted := loop.allSegmentsGranted
      assessment := loop.assessment
      redirectWrite := redirectWrites parsed
      ambientSegments :=
        if loop.hasGitCommand && !loop.execRisk then some loop.ambientRaw else none
      protectedPaths := protectedPaths parsed
      hasCwdChange := parsed.hasCwdChange
      recoveredEligible := false }

/-- Parses and classifies one request. -/
def evaluateBash (cmd : Text) (state : PermissionState) (honorSafeLists : Bool) : BashEvaluation :=
  match parse cmd with
  | none => evaluateUnparsed cmd state
  | some parsed =>
    match parsed.segments with
    | none => evaluateRecovered cmd state parsed
    | some segments => evaluateDecomposed parse glob cmd state honorSafeLists parsed segments

end Parsed

/-- The answer to a request. -/
inductive Decision where
  | allow
  | ask
  | followupMessage (message : Text)
  | reject (reason : Text)
  | policyDeny (reason : Text)
  | cancelled
  deriving DecidableEq

/-- What an answer before the prompt rests on. -/
inductive DecisionReason where
  | sessionGrant
  | safeCommand
  | sessionDeny
  deriving DecidableEq

/--
The knobs of the decision before the prompt. The fields are private to the
source's module, whose constructors never honor a blanket grant without
honoring the safe lists.
-/
structure BashGrantOpts where
  honorSafeLists : Bool
  allowBlanket : Bool
  conservativeBlanket : Bool
  blanket_honors : allowBlanket = true → honorSafeLists = true

/-- Before the classifier: a blanket grant is trusted least. -/
def BashGrantOpts.preClassifier : BashGrantOpts := ⟨true, true, true, fun _ => rfl⟩

/-- Under a rule that asks: only what was granted counts. -/
def BashGrantOpts.askFloorRemember : BashGrantOpts :=
  ⟨false, false, false, fun h => absurd h Bool.false_ne_true⟩

/-- After the classifier. -/
def BashGrantOpts.postClassify (autoForcedPrompt : Bool) : BashGrantOpts :=
  ⟨true, !autoForcedPrompt, false, fun _ => rfl⟩

/-- Whether the request must prompt unless it was granted exactly. -/
def bashRequestFloorRequiresPrompt (evaluation : BashEvaluation) : Bool :=
  !evaluation.exactGrant && constrainsBroadGrant evaluation.assessment

/-- Whether a blanket or exact grant allows the command; the pin disables the blanket. -/
def persistedBashAutoAllows (state : PermissionState) (cmd : Text) (yoloPin : Option Text) : Bool :=
  (state.allowBashExecute && yoloPin.isNone) || decide (cmd ∈ state.allowedBashCommands)

/-- Allows by a grant where the condition holds. -/
def grantIf (condition : Bool) : Option (Decision × DecisionReason) :=
  if condition then some (.allow, .sessionGrant) else none

/-- The decision before any prompt, if the remembered answers give one. -/
def bashGrantPreDecision (cmd : Text) (evaluation : BashEvaluation) (state : PermissionState)
    (yoloPin : Option Text) (opts : BashGrantOpts) : Option (Decision × DecisionReason) :=
  match evaluation.segments with
  | .reject reason => some (.reject reason, .sessionDeny)
  | .autoAllow viaSessionGrant =>
    if bashRequestFloorRequiresPrompt evaluation then none
    else if !opts.honorSafeLists && !evaluation.allSegmentsGranted then none
    else some (.allow, if viaSessionGrant then .sessionGrant else .safeCommand)
  | .needsPrompts _ =>
    if bashRequestFloorRequiresPrompt evaluation then none
    else if !opts.allowBlanket then none
    else if opts.conservativeBlanket && decide (.dangerousCommand ∈ evaluation.assessment) then
      grantIf evaluation.exactGrant
    else grantIf (persistedBashAutoAllows state cmd yoloPin)
  | .unparseable =>
    if bashRequestFloorRequiresPrompt evaluation then none
    else if !opts.allowBlanket then none
    else if opts.conservativeBlanket then grantIf evaluation.exactGrant
    else grantIf (persistedBashAutoAllows state cmd yoloPin)

/-- The decision on a request under the remembered answers. -/
def preDecision (parse : ShellParser) (glob : GlobCompiler) (cmd : Text) (state : PermissionState)
    (honorSafeLists : Bool) (yoloPin : Option Text) (opts : BashGrantOpts) :
    Option (Decision × DecisionReason) :=
  bashGrantPreDecision cmd (evaluateBash parse glob cmd state honorSafeLists) state yoloPin opts

end Ezer.Permission
