import Ezer.Hashline.Apply

/-!
# Applying a batch of edits

The operations of a request are resolved against one content, checked for
overlaps, and made from the last line to the first.
-/

namespace Ezer.Hashline

open Ezer.Lib

/-- One edit as it is named in an error. -/
def describeEdit (start stop idx : ℕ) : Text :=
  if start = stop then
    "edit #".toList ++ digits (idx + 1) ++ " (insertion at line ".toList ++ digits (start + 1) ++
      ")".toList
  else
    "edit #".toList ++ digits (idx + 1) ++ " (lines ".toList ++ digits (start + 1) ++
      "-".toList ++ digits stop ++ ")".toList

/-- The error of two edits that overlap. -/
def overlapError (a b : ℕ × ℕ × ℕ) : HashlineEditError :=
  { error := .overlappingEdits
    message := "Overlapping edits: ".toList ++ describeEdit a.1 a.2.1 a.2.2 ++ " and ".toList ++
      describeEdit b.1 b.2.1 b.2.2 ++ ".".toList }

/-- The first two neighbours of which the first ends after the second starts. -/
def findOverlap : List (ℕ × ℕ × ℕ) → Option HashlineEditError
  | a :: b :: ranges =>
    if a.2.1 > b.1 then some (overlapError a b) else findOverlap (b :: ranges)
  | _ => none

/-- The error of the first insertion within a replaced range. -/
def findInsertionOverlap (ranges : List (ℕ × ℕ × ℕ)) (ops : List ResolvedOp) :
    Option HashlineEditError :=
  ops.findSome? fun op =>
    if op.start ≠ op.stop then none
    else
      (ranges.find? fun r => r.1 ≤ op.start && op.start < r.2.1).map fun r =>
        overlapError r (op.start, op.start, op.originalIdx)

/-- The error of operations that overlap. -/
def checkOverlaps (ops : List ResolvedOp) : Option HashlineEditError :=
  let ranges := List.insertionSort (fun a b => a.1 ≤ b.1)
    ((ops.filter fun op => op.start ≠ op.stop).map fun op => (op.start, op.stop, op.originalIdx))
  (findOverlap ranges).or (findInsertionOverlap ranges ops)

/-- The number of lines shown around an edit. -/
def snippetContext : ℕ := 3

/-- The number of lines up to which all edits are shown together. -/
def maxContiguousSnippet : ℕ := 80

/-- The mark for lines that are not shown. -/
def gapMark (n : ℕ) : Text := "... ".toList ++ digits n ++ " lines not shown ...".toList

/-- Add a region, with the lines around it, to those before it. -/
def mergeRegion (totalNewLines : ℕ) (merged : List (ℕ × ℕ)) (region : ℕ × ℕ) : List (ℕ × ℕ) :=
  let ctxStart := region.1 - snippetContext
  let ctxEnd := min (region.2 + snippetContext) totalNewLines
  match merged.getLast? with
  | none => merged ++ [(ctxStart, ctxEnd)]
  | some last =>
    if ctxStart ≤ last.2 then merged.dropLast ++ [(last.1, max last.2 ctxEnd)]
    else merged ++ [(ctxStart, ctxEnd)]

/-- The parts of a snippet from a region on, after the region before it if there is one. -/
def snippetParts (newContent : Text) (totalNewLines : ℕ) (scheme : AnchorScheme) :
    Bool → ℕ → List (ℕ × ℕ) → List Text
  | _, prevEnd, [] =>
    if prevEnd < totalNewLines then [gapMark (totalNewLines - prevEnd)] else []
  | first, prevEnd, (start, stop) :: regions =>
    (if first then (if 0 < start then [gapMark start] else [])
      else [gapMark (start - prevEnd)]) ++
      (formatHashlineContent newContent (some (start + 1)) (some (stop - start)) scheme).1 ::
        snippetParts newContent totalNewLines scheme false stop regions

/-- The edited regions of a new content, after fresh anchors. -/
def buildSnippet (newContent : Text) (editRegions : List (ℕ × ℕ)) (totalNewLines : ℕ)
    (scheme : AnchorScheme) : Text :=
  match editRegions.head?, editRegions.getLast? with
  | some first, some last =>
    let globalStart := first.1 - snippetContext
    let globalEnd := min (last.2 + snippetContext) totalNewLines
    if globalEnd - globalStart ≤ maxContiguousSnippet then
      (formatHashlineContent newContent (some (globalStart + 1))
        (some (globalEnd - globalStart)) scheme).1
    else
      let merged := editRegions.foldl (mergeRegion totalNewLines) []
      joinLines (snippetParts newContent totalNewLines scheme true 0 merged)
  | _, _ => []

/-- The result of writing a whole content. -/
def buildWriteResult (newContent filePath : Text) (scheme : AnchorScheme) : HashlineEditOutput :=
  let total := (splitLines newContent).length
  let snippetEnd := min (snippetContext * 2) total
  .editsApplied
    { applied := 1
      scheme := scheme.name
      snippetStartLine := 1
      snippet := (formatHashlineContent newContent (some 1) (some snippetEnd) scheme).1
      absolutePath := filePath
      warnings := [] }

/-- A rejected batch. -/
def rejected (e : HashlineEditError) : ApplyResult := ⟨.error e, none, []⟩

/-- The error of one operation of a batch of several. -/
def batchError (count idx : ℕ) (op : HashlineOp) (e : HashlineEditError) : HashlineEditError :=
  if count ≤ 1 then e
  else
    { e with
      message := "Edit ".toList ++ digits (idx + 1) ++ "/".toList ++ digits count ++
        " (".toList ++ op.label ++ "): ".toList ++ e.message ++
        "\n\nThis batch contained ".toList ++ digits count ++
        (" edits. Because this anchor failed validation, none of the edits were applied. " ++
          "Retry all ").toList ++ digits count ++
        " edits with fresh anchors, not just the failed one.".toList }

/-- Resolve the operations of a batch from an index on. -/
def resolveOps (count : ℕ) (ls : List Text) (scheme : AnchorScheme) :
    ℕ → List HashlineOp → Except HashlineEditError (List ResolvedOp)
  | _, [] => .ok []
  | idx, op :: ops =>
    match resolveOp op idx ls scheme with
    | .error e => .error (batchError count idx op e)
    | .ok r =>
      match resolveOps count ls scheme (idx + 1) ops with
      | .error e => .error e
      | .ok rs => .ok (r :: rs)

/-- The overlap error of a batch of several operations. -/
def overlapBatchError (count : ℕ) (e : HashlineEditError) : HashlineEditError :=
  if count ≤ 1 then e
  else
    { e with
      message := e.message ++ "\n\nThis batch contained ".toList ++ digits count ++
        (" edits. Because of the overlap, none were applied. Fix the overlapping ranges and " ++
          "retry all edits.").toList }

/-- The regions and details of operations from the first line to the last, when lines were
inserted before them. -/
def editRegions (ls : List Text) : ℤ → List ResolvedOp → List ((ℕ × ℕ) × EditRegionDetail)
  | _, [] => []
  | cumulativeShift, op :: ops =>
    let shiftedStart := ((op.start : ℤ) + cumulativeShift).toNat
    let inserted := op.newLines.length
    let oldText :=
      if op.start < op.stop then joinLines ((getRange ls op.start op.stop).getD []) else []
    ((shiftedStart, shiftedStart + inserted),
        ⟨op.start + 1, oldText, shiftedStart + 1, joinLines op.newLines⟩) ::
      editRegions ls (cumulativeShift + inserted - ((op.stop - op.start : ℕ) : ℤ)) ops

/-- Replace the lines of one operation. -/
def spliceLines (ls : List Text) (op : ResolvedOp) : List Text :=
  ls.take op.start ++ op.newLines ++ ls.drop op.stop

/-- Whether an operation is made before another one. -/
def madeBefore (a b : ResolvedOp) : Prop :=
  b.start < a.start ∨ (b.start = a.start ∧ b.originalIdx ≤ a.originalIdx)

instance : DecidableRel madeBefore := fun a b =>
  inferInstanceAs (Decidable (b.start < a.start ∨ (b.start = a.start ∧
    b.originalIdx ≤ a.originalIdx)))

/-- The result of operations that are resolved and do not overlap. -/
def applyResolved (count : ℕ) (ls : List Text) (resolved : List ResolvedOp) (filePath : Text)
    (scheme : AnchorScheme) : ApplyResult :=
  let warnings := resolved.filterMap fun op => rangeWarning op.start op.stop
  let sorted := List.insertionSort madeBefore resolved
  let details := editRegions ls 0 sorted.reverse
  let newContent := joinLines (sorted.foldl spliceLines ls)
  let totalNewLines := (splitLines newContent).length
  let regions := List.insertionSort (fun a b => a.1 ≤ b.1) (details.map Prod.fst)
  { output := .editsApplied
      { applied := count
        scheme := scheme.name
        snippetStartLine := (regions.head?.map fun r => r.1 - snippetContext + 1).getD 1
        snippet := buildSnippet newContent regions totalNewLines scheme
        absolutePath := filePath
        warnings := warnings }
    newContent := some newContent
    editDetails := details.map Prod.snd }

/-- Apply a batch of operations to a content. -/
def applyEdits (content : Text) (ops : List HashlineOp) (filePath : Text)
    (scheme : AnchorScheme) : ApplyResult :=
  match ops with
  | [.write newContent] =>
    match detectAnchorPrefixInContent newContent with
    | some lineNum => rejected (anchorContentError "write".toList newContent lineNum)
    | none => ⟨buildWriteResult newContent filePath scheme, some newContent, []⟩
  | ops =>
    let ls := splitLines content
    match resolveOps ops.length ls scheme 0 ops with
    | .error e => rejected e
    | .ok resolved =>
      match checkOverlaps resolved with
      | some e => rejected (overlapBatchError ops.length e)
      | none => applyResolved ops.length ls resolved filePath scheme

end Ezer.Hashline
