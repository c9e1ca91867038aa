import Ezer.Hashline.Scheme

/-!
# Requests and results of an edit

The operations of an edit request, and the results that the edit of a file
content has.
-/

namespace Ezer.Hashline

open Ezer.Lib

/-- An operation of a request. -/
inductive HashlineOp where
  | replace (anchor : Text) (endAnchor : Option Text) (content : Text)
  | insertAfter (anchor content : Text)
  | write (content : Text)

/-- The name of an operation. -/
def HashlineOp.label : HashlineOp → Text
  | .replace _ _ _ => "replace".toList
  | .insertAfter _ _ => "insert_after".toList
  | .write _ => "write".toList

/-- The kinds of errors. -/
inductive HashlineEditErrorKind where
  | anchorStale
  | ambiguousAnchor
  | anchorNotFound
  | fileNotFound
  | overlappingEdits
  | invalidInput
  | ioError

/-- A rejected edit. -/
structure HashlineEditError where
  error : HashlineEditErrorKind
  message : Text
  requestedAnchor : Option Text := none
  current : Option Text := none
  context : Option Text := none
  contextStartLine : Option ℕ := none
  shiftedTo : Option ℕ := none
  shiftedAnchor : Option Text := none
  ambiguousCandidates : List ℕ := []

/-- A successful edit. -/
structure HashlineEditsApplied where
  applied : ℕ
  scheme : Text
  snippetStartLine : ℕ
  snippet : Text
  absolutePath : Text
  warnings : List Text

/-- The output of an edit. -/
inductive HashlineEditOutput where
  | editsApplied (result : HashlineEditsApplied)
  | error (error : HashlineEditError)

/-- The old and the new content of one edited region. -/
structure EditRegionDetail where
  oldLine : ℕ
  oldText : Text
  newLine : ℕ
  newText : Text

/-- The output of an edit, the new content of the file if there is one, and the edited
regions. -/
structure ApplyResult where
  output : HashlineEditOutput
  newContent : Option Text
  editDetails : List EditRegionDetail

/-- An operation with the lines that it replaces, from `start` to before `stop`. -/
structure ResolvedOp where
  originalIdx : ℕ
  start : ℕ
  stop : ℕ
  newLines : List Text

/-- The sizes of ranges. -/
inductive RangeSize where
  | small
  | medium
  | large

/-- The size of a range of so many lines. -/
def RangeSize.classify (lineCount : ℕ) : RangeSize :=
  if lineCount ≤ 5 then .small else if lineCount ≤ 20 then .medium else .large

/-- The warning about the range of an edit. -/
def rangeWarning (start stop : ℕ) : Option Text :=
  let count := stop - start
  match RangeSize.classify count with
  | .large =>
    some ("Caution: large range edit (".toList ++ digits count ++ " lines, lines ".toList ++
      digits (start + 1) ++ "-".toList ++ digits stop ++
      "). Verify the target range is correct.".toList)
  | .medium =>
    some ("Note: medium range edit (".toList ++ digits count ++ " lines, lines ".toList ++
      digits (start + 1) ++ "-".toList ++ digits stop ++ ").".toList)
  | .small => none

end Ezer.Hashline
