import Ezer.Permission.Evaluate

/-!
# Remembering an answer

The prompt shows the first important command of a script and the words an
answer would cover. Accepting writes a key into the remembered state, which is
derived again from the script. The always-allow row is shown only where the
key it would write lets the script through.
-/

namespace Ezer.Permission

open Ezer.Lib

/-- The first important command of a script with what stands around it. -/
structure BashCommandHighlights where
  before : List Text
  highlightedWords : List Text
  after : List Text
  deriving DecidableEq

/-- Splits at unquoted white space, given the word read so far and the open quotes. -/
def shSplitFrom (current : Text) (inSingle inDouble : Bool) : Text → List Text
  | [] => if current = [] then [] else [current]
  | c :: rest =>
    if c = '\'' ∧ inDouble = false then shSplitFrom current (!inSingle) inDouble rest
    else if c = '"' ∧ inSingle = false then shSplitFrom current inSingle (!inDouble) rest
    else if c = '\\' then
      match rest with
      | [] => shSplitFrom current inSingle inDouble []
      | next :: rest => shSplitFrom (current ++ [next]) inSingle inDouble rest
    else if isWhitespace c = true ∧ inSingle = false ∧ inDouble = false then
      if current = [] then shSplitFrom [] inSingle inDouble rest
      else current :: shSplitFrom [] inSingle inDouble rest
    else shSplitFrom (current ++ [c]) inSingle inDouble rest

/-- Splits at unquoted white space. -/
def shSplitSimple (t : Text) : List Text := shSplitFrom [] false false t

/-- Whether a command is the one a prompt is about. -/
def isPrimary (command : PlainCommand) : Bool := !isSetupCommand (unwrapWrappers command.words)

/-- The first important command of a script. -/
def primaryCommandFromScript (parse : ShellParser) (script : Text) :
    Option BashCommandHighlights :=
  match allCommandsFromScript parse script with
  | none => none
  | some commands =>
    match commands.find? isPrimary with
    | none => none
    | some primary =>
      let peeled := unwrapWrappers primary.words
      match sliceTo script primary.spanStart, sliceFrom script primary.spanEnd with
      | some before, some after => some
          { before := shSplitSimple before ++
              primary.words.take (primary.words.length - peeled.length)
            highlightedWords := peeled
            after := shSplitSimple after }
      | _, _ => none

/-- Whether the row at the given scope writes a grant that can match again. -/
def alwaysAllowScopePersists (parse : ShellParser) (h : BashCommandHighlights) (n : ℕ) : Bool :=
  n != 0 && n ≤ h.highlightedWords.length && minimumAlwaysAllowScope h.highlightedWords ≤ n &&
    (wordsJoinUnambiguously parse (h.highlightedWords.take n) ||
      (n == h.highlightedWords.length && h.before.isEmpty && h.after.isEmpty))

/-- The scopes from one number of words to another. -/
def scopesBetween (low high : ℕ) : List ℕ := (List.range (high + 1)).filter (low ≤ ·)

/-- The key that an always-allow answer writes for a label, if the label is one it may write. -/
def bashAlwaysAllowKey (parse : ShellParser) (cmd label : Text) : Option Text :=
  match primaryCommandFromScript parse cmd with
  | none => none
  | some h =>
    let words := h.highlightedWords
    if (scopesBetween (minimumAlwaysAllowScope words) words.length).any fun n =>
        wordsJoinUnambiguously parse (words.take n) && joinWords (words.take n) == label then
      some label
    else if h.before.isEmpty && h.after.isEmpty && joinWords words == label then some cmd
    else none

/-- The state with a command allowed. -/
def PermissionState.allowCommand (state : PermissionState) (key : Text) : PermissionState :=
  { state with allowedBashCommands := state.allowedBashCommands.insert key }

/-- The state with a command forbidden. -/
def PermissionState.denyCommand (state : PermissionState) (key : Text) : PermissionState :=
  { state with disallowedBashCommands := state.disallowedBashCommands.insert key }

/-- The state with a glob allowed. -/
def PermissionState.allowGlob (state : PermissionState) (pattern : Text) : PermissionState :=
  { state with allowedBashGlobs := state.allowedBashGlobs.insert pattern }

/-- Writes an always-allow answer. -/
def persistBashAlwaysAllow (parse : ShellParser) (state : PermissionState) (cmd label : Text) :
    PermissionState :=
  match bashAlwaysAllowKey parse cmd label with
  | some key => state.allowCommand key
  | none => state

/-- The grants that one answer may write for the segments of a script. -/
def maxSegmentGrants : ℕ := 5

/-- The key a segment is granted by, where it may be granted on its own. -/
def segmentGrant (parse : ShellParser) (command : PlainCommand) : Option Text :=
  let words := unwrapWrappers command.words
  if words ≠ [] ∧ isSetupCommand words = false ∧ isDangerousCommandWords words = false ∧
      headIsExecVehicle words = false ∧ wordsJoinUnambiguously parse words = true then
    some (joinWords words)
  else none

/-- The keys of the segments of a script. -/
def bashGrantSegments (parse : ShellParser) (cmd : Text) : List Text :=
  match allCommandsFromScript parse cmd with
  | none => []
  | some segments =>
    let grants := segments.filterMap (segmentGrant parse)
    if maxSegmentGrants < grants.length then [] else grants

/-- Whether a glob is about a segment of the script and is no catch-all. -/
def bashGlobCoversScript (parse : ShellParser) (glob : GlobCompiler) (cmd pattern : Text) : Bool :=
  if bashGlobIsCatchall glob pattern then false
  else
    match allCommandsFromScript parse cmd with
    | none => bashPatternMatchesCommand glob pattern cmd
    | some segments => segments.any fun segment =>
        let words := unwrapWrappers segment.words
        !words.isEmpty && !isSetupCommand words &&
          bashPatternMatchesCommand glob pattern (joinWords words)

/-- The answers to a prompt about a shell command that are remembered. -/
inductive PromptOutcome where
  | allowAlways
  | allowAlwaysBashCommand (label : Text)
  | allowAlwaysBashGlob (pattern : Text)
  | rejectAlwaysBashCommand (label : Text)

/-- Writes an answer to a prompt about a shell command; gives the key it recorded. -/
def recordPromptOutcome (parse : ShellParser) (glob : GlobCompiler) (state : PermissionState)
    (cmd : Text) : PromptOutcome → PermissionState × Option Text
  | .allowAlways =>
    ((bashGrantSegments parse cmd).foldl PermissionState.allowCommand (state.allowCommand cmd),
      some cmd)
  | .allowAlwaysBashCommand label => (persistBashAlwaysAllow parse state cmd label, some label)
  | .allowAlwaysBashGlob pattern =>
    if bashGlobCoversScript parse glob cmd pattern then (state.allowGlob pattern, some pattern)
    else (state, none)
  | .rejectAlwaysBashCommand label => (state.denyCommand label, some label)

/-- The label of the always-allow row as it is first shown. -/
def defaultRowLabel (h : BashCommandHighlights) : Text :=
  joinWords (h.highlightedWords.take (defaultAlwaysAllowScope h.highlightedWords))

/-- Whether accepting the always-allow row as first shown lets the script through. -/
def alwaysAllowRowIsEffective (parse : ShellParser) (glob : GlobCompiler) (cmd : Text) : Bool :=
  match primaryCommandFromScript parse cmd with
  | none => false
  | some h =>
    if alwaysAllowScopePersists parse h (defaultAlwaysAllowScope h.highlightedWords) then
      let scratch := persistBashAlwaysAllow parse .default cmd (defaultRowLabel h)
      match bashGrantPreDecision cmd (evaluateBash parse glob cmd scratch true) scratch none
          .preClassifier with
      | some (.allow, _) => true
      | _ => false
    else false

end Ezer.Permission
