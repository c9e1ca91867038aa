import Ezer.SearchReplace.Helpers
import Ezer.Lib.Pieces

/-!
# The replacement tool

A request names a file, a text in it and the text to put in its place. The file
is read as UTF-8, its line ends are read as line feeds if one of them is CR LF,
the text is searched, and what was found is replaced. Line ends are written as
CR LF again if one of them was.
-/

namespace Ezer.SearchReplace

open Lib

/-- A request. -/
structure SearchReplaceInput where
  filePath : Text
  oldString : Text
  newString : Text
  replaceAll : Bool

/-- Why a file cannot be read. -/
inductive ReadError where
  | notFound
  | isADirectory
  | invalidFilename
  | permissionDenied
  | other (message : Text)

/-- Why a file cannot be written. -/
inductive WriteError where
  | alreadyExists
  | invalidFilename
  | other (message : Text)

/-- Why a call fails. -/
inductive ToolError where
  | execution (message : Text)
  | invalidArguments (message : Text)

/-- What the tool is called with besides its request: what reading the file gives, what writing
some bytes gives, first through the policy of the session for its memory files and then to the
file, and the texts that depend on the tools of the session. -/
structure Host where
  readFile : Except ReadError (List UInt8)
  writeMemoryV2File : List UInt8 → Except Text Bool
  writeFile : List UInt8 → Except WriteError Unit
  unicodeNormalizedFallback : Bool
  path : Text
  notFoundMessage : Text
  render : Text → Except ToolError Text
  isLegacy : Bool
  includeUserEditHint : Bool
  nearestMatchHint : Text → Text → Text
  confusableHint : Text → Text → Text → Text → Text → Option Text

/-- One edit as it is shown. -/
structure SearchReplaceEditDetail where
  oldString : Text
  oldLine : ℕ
  newString : Text
  newLine : ℕ
  contextBefore : Text
  contextAfter : Text
  linePrefix : Text

/-- Applied edits as they are shown. -/
structure SearchReplaceEditsApplied where
  oldString : Text
  newString : Text
  toolOutputForPrompt : Text
  toolOutputForPromptConcise : Text
  absolutePath : Text
  details : List SearchReplaceEditDetail
  unicodeNormalized : Bool

/-- What the tool returns. -/
inductive SearchReplaceOutput where
  | editsApplied (applied : SearchReplaceEditsApplied)
  | multipleMatchesFound (message : Text)
  | noMatchesFound (message filePath : Text)
  | invalidInput (message : Text)
  | fileNotFound (message : Text)
  | filenameTooLong (message : Text)

/-- What a call returns and the bytes it wrote, if it wrote the file. -/
structure Outcome where
  output : SearchReplaceOutput
  written : Option (List UInt8)

/-- An outcome without a write. -/
def Outcome.unwritten (output : SearchReplaceOutput) : Outcome := ⟨output, none⟩

/-- The first and the last line of an inserted text. -/
def computeLineRange (text : Text) (startPos : ℕ) (insertedText : Text) : ℕ × ℕ :=
  let startLine := ((getBytes text 0 startPos).map (List.count '\n')).getD 0
  (startLine, startLine + max 1 (splitInclusive insertedText).length - 1)

/-- The lines of a range, if there are such lines. -/
def linesBetween (ls : List Text) (first stop : ℕ) : Text :=
  if first ≤ stop ∧ stop ≤ ls.length then ((ls.drop first).take (stop - first)).flatten else []

/-- The lines around an inserted text. -/
def renderSnippet (newText newString : Text) (startPos contextSize : ℕ) : Text × Text :=
  let (startLine, endLine) := computeLineRange newText startPos newString
  let ls := splitInclusive newText
  let snippetStart := startLine - contextSize
  let snippetEnd := min (endLine + contextSize) (ls.length - 1)
  ( if snippetStart < startLine then linesBetween ls snippetStart startLine else [],
    if endLine < snippetEnd then linesBetween ls (endLine + 1) (snippetEnd + 1) else [] )

/-- Each replacement with the lines around it. -/
def buildEditDetails (newText oldString newString : Text) (newPositions : List ℕ)
    (contextLines : ℕ) : List SearchReplaceEditDetail :=
  newPositions.map fun startPos =>
    let (before, after) := renderSnippet newText newString startPos contextLines
    let line := (computeLineRange newText startPos newString).1 + 1
    { oldString := oldString
      oldLine := line
      newString := newString
      newLine := line
      contextBefore := before
      contextAfter := after
      linePrefix := (((getBytes newText 0 startPos).getD []).reverse.takeWhile (· ≠ '\n')).reverse }

/-- What is returned if the file cannot be read. -/
def readFailed (host : Host) (input : SearchReplaceInput) : ReadError → Except ToolError Outcome
  | .notFound => .ok (.unwritten (.fileNotFound host.notFoundMessage))
  | .isADirectory =>
    .ok (.unwritten (.invalidInput
      ("Error: ".toList ++ input.filePath ++ " is a directory, not a file.".toList)))
  | .invalidFilename =>
    .ok (.unwritten (.filenameTooLong
      ("Error: file name exceeds the 255-character limit. ".toList ++
        "Please use a shorter file name.".toList)))
  | .permissionDenied =>
    .ok (.unwritten (.invalidInput
      ("Error: permission denied reading ".toList ++ input.filePath ++ ".".toList)))
  | .other message => .error (.execution message)

/-- What is returned if the file cannot be written. -/
def writeFailed (input : SearchReplaceInput) : WriteError → SearchReplaceOutput
  | .alreadyExists =>
    .invalidInput ("Error: cannot write ".toList ++ input.filePath ++
      ". A component of the path already exists as a file where a directory is expected.".toList)
  | .invalidFilename =>
    .filenameTooLong ("Error: file name exceeds the 255-character limit. ".toList ++
      "Please use a shorter file name.".toList)
  | .other message =>
    .invalidInput ("Error: failed to write ".toList ++ input.filePath ++ ": ".toList ++ message)

/-- The text does not have what is to be replaced. -/
def noMatchesFound (host : Host) (input : SearchReplaceInput) (matchText : Text) :
    Except ToolError Outcome := do
  let readName ← host.render "$\x7b\x7b tools.by_kind.read \x7d\x7d".toList
  let oldStringParam ← host.render "$\x7b\x7b params.edit.old_string \x7d\x7d".toList
  let executeName ← host.render "$\x7b\x7b tools.by_kind.execute \x7d\x7d".toList
  let hint := if host.isLegacy then [] else host.nearestMatchHint matchText input.oldString
  let confusableHint :=
    if host.isLegacy then []
    else (host.confusableHint matchText input.oldString readName oldStringParam executeName).getD []
  let userEditHint :=
    if host.includeUserEditHint then
      " The user may have changed the file since you last read it.".toList
    else []
  .ok (.unwritten (.noMatchesFound
    ("The string to replace was not found in the file, use the ".toList ++ readName ++
      " tool to see the correct string.".toList ++ userEditHint ++ hint ++ confusableHint)
    host.path))

/-- The text has what is to be replaced more than once. -/
def multipleMatchesFound (host : Host) (how : Text) : Except ToolError Outcome := do
  let replaceAllName ← host.render "$\x7b\x7b params.edit.replace_all \x7d\x7d".toList
  .ok (.unwritten (.multipleMatchesFound
    ("The string to replace was found multiple times in the file".toList ++ how ++
      ". Use ".toList ++ replaceAllName ++ " to replace all occurrences, ".toList ++
      "or include more context to only edit one occurrence.".toList)))

/-- What is found as ASCII cannot be told apart from its surroundings. -/
def ambiguousMatch (host : Host) : Except ToolError Outcome := do
  let oldStringName ← host.render "$\x7b\x7b params.edit.old_string \x7d\x7d".toList
  .ok (.unwritten (.multipleMatchesFound
    ("The string to replace was found via Unicode normalization but the ".toList ++
      "match is ambiguous (partial or overlapping). Use a more specific ".toList ++
      oldStringName ++ " that avoids lines with Unicode typography characters.".toList)))

/-- The text of a file has a CR LF. -/
def hasCrlf (text : Text) : Bool := (splitOnce ['\r', '\n'] text).isSome

/-- Write the new text and report the replacement. -/
def writeReplacement (host : Host) (input : SearchReplaceInput) (crlf usedNormalizedFallback : Bool)
    (replaced : Text × List ℕ) : Outcome :=
  let (newText, newPositions) := replaced
  let writeText := if crlf then lfToCrlf (crlfToLf newText) else newText
  let bytes := encodeUtf8 writeText
  let (message, conciseMessage) :=
    if newPositions.length = 1 then
      (" has been updated successfully.".toList, " has been updated.".toList)
    else
      (" has been updated. All occurrences were successfully replaced.".toList,
        " has been updated. All occurrences were replaced.".toList)
  let applied : SearchReplaceOutput :=
    .editsApplied
      { oldString := input.oldString
        newString := input.newString
        toolOutputForPrompt := "The file ".toList ++ input.filePath ++ message
        toolOutputForPromptConcise := "The file ".toList ++ input.filePath ++ conciseMessage
        absolutePath := host.path
        details := buildEditDetails newText input.oldString input.newString newPositions 3
        unicodeNormalized := usedNormalizedFallback }
  match host.writeMemoryV2File bytes with
  | .error message => .unwritten (.invalidInput message)
  | .ok true => ⟨applied, some bytes⟩
  | .ok false =>
    match host.writeFile bytes with
    | .error e => .unwritten (writeFailed input e)
    | .ok () => ⟨applied, some bytes⟩

/-- Replace in a text what a search for it found. -/
def replaceFound (host : Host) (input : SearchReplaceInput) (crlf : Bool) (matchText : Text) :
    Except ToolError Outcome :=
  match matchIndices input.oldString matchText with
  | [] =>
    if host.unicodeNormalizedFallback then
      match findNormalizedMatchPositions matchText input.oldString with
      | .matches found =>
        if 1 < found.length ∧ input.replaceAll = false then
          multipleMatchesFound host " (via Unicode normalization)".toList
        else if found.isEmpty then noMatchesFound host input matchText
        else
          .ok (writeReplacement host input crlf true
            (replaceNormalizedMatches matchText found input.newString))
      | .ambiguous => ambiguousMatch host
      | .noMatch => noMatchesFound host input matchText
    else noMatchesFound host input matchText
  | positions =>
    if 1 < positions.length ∧ input.replaceAll = false then multipleMatchesFound host []
    else
      .ok (writeReplacement host input crlf false
        (replaceUsingPositions matchText positions input.oldString input.newString))

/-- The text that is searched: with a CR LF in it, every CR LF is a line feed. -/
def matchTextOf (oldText : Text) : Text := if hasCrlf oldText then crlfToLf oldText else oldText

/-- Replace a text in a file. -/
def handleReplacement (host : Host) (input : SearchReplaceInput) : Except ToolError Outcome :=
  match host.readFile with
  | .error e => readFailed host input e
  | .ok bytes =>
    let oldText := fromUtf8Lossy bytes
    replaceFound host input (hasCrlf oldText) (matchTextOf oldText)

end Ezer.SearchReplace
