import Ezer.Textarea.Editor

/-!
# The text area

A text area is a text with a cursor, the elements in the text, and a history of what
it was before. Every mutation goes through a plan of the editor, for which the elements
are the atomic ranges.
-/

namespace Ezer.Textarea

open Lib

/-- An element of the text, which is shown in its own way. -/
structure TextElement (Line : Type) where
  id : ℕ
  range : ByteRange
  kind : ℕ
  display : Option Line
  deriving DecidableEq

/-- What a text area was. -/
structure UndoEntry (Line : Type) where
  text : Text
  cursor : ℕ
  elements : List (TextElement Line)
  deriving DecidableEq

/-- The kinds of mutations. -/
inductive MutationKind where
  | insert
  | delete
  | kill
  | element
  | replace
  deriving DecidableEq

/-- The history, with the newest entry of each stack first. -/
structure UndoState (Line : Type) where
  stack : List (UndoEntry Line)
  redo : List (UndoEntry Line)
  maxDepth : ℕ
  lastKind : Option MutationKind
  lastCursor : ℕ
  lastInsertWs : Bool
  groupDepth : ℕ
  groupCheckpoint : Option (UndoEntry Line)
  deriving DecidableEq

/-- A selection, from where it was started to where it is. -/
structure Selection where
  anchor : ℕ
  head : ℕ
  deriving DecidableEq

/-- A text area. -/
structure TextArea (Line : Type) where
  text : EditBuffer
  elements : List (TextElement Line)
  nextElementId : ℕ
  killBuffer : Text
  undo : UndoState Line
  selection : Option Selection
  tabWidth : ℕ
  deriving DecidableEq

/-- Where text is shown: the wrapped rows, when they are known, the column that is aimed at, and
the widths. -/
structure View (Line : Type) where
  lines : Option (List ByteRange)
  targetCol : ℕ
  plainWidth : Text → ℕ
  displayWidth : Line → ℕ

/-- Whether the end of a row is a position on it. -/
inductive RowEnd where
  | hardBreak
  | softWrap

/-- An empty history. -/
def UndoState.default {Line : Type} : UndoState Line where
  stack := []
  redo := []
  maxDepth := 100
  lastKind := none
  lastCursor := 0
  lastInsertWs := false
  groupDepth := 0
  groupCheckpoint := none

/-- Push an entry, and drop the oldest one where there are too many. -/
def UndoState.push {Line : Type} (u : UndoState Line) (entry : UndoEntry Line) : UndoState Line :=
  let stack := entry :: u.stack
  { u with stack := if u.maxDepth < stack.length then stack.dropLast else stack }

/-- Whether a plan edits the text, or takes a part of it and puts the same in its place. -/
def isSemanticEdit (plan : EditPlan) : Bool :=
  decide (plan.removedText ≠ plan.replacement) ||
    decide (plan.replacedByteRange.start < plan.replacedByteRange.stop)

/-- A position, where a range of the text was replaced. -/
def adjustPositionAfterEdit (position : ℕ) (replaced : ByteRange) (insertedLen : ℕ) : ℕ :=
  if position < replaced.start then position
  else if position ≤ replaced.stop then replaced.start + insertedLen
  else position - (replaced.stop - replaced.start) + insertedLen

/-- An element, where a part of the text was replaced that does not contain it. -/
def TextElement.shift {Line : Type} (e : TextElement Line) (first removed inserted : ℕ) :
    TextElement Line :=
  let stop := first + removed
  if e.range.stop ≤ first then e
  else if stop ≤ e.range.start then
    { e with range := ⟨e.range.start + inserted - removed, e.range.stop + inserted - removed⟩ }
  else
    { e with range := ⟨min first e.range.start, first + max inserted (e.range.stop - stop)⟩ }

/-- The elements, where a part of the text was replaced. -/
def shiftElements {Line : Type} (elements : List (TextElement Line))
    (first removed inserted : ℕ) : List (TextElement Line) :=
  (elements.filter fun e =>
    !(decide (first ≤ e.range.start) && decide (e.range.stop ≤ first + removed))).map
    (·.shift first removed inserted)

namespace TextArea

variable {Line : Type}

/-- An empty text area. -/
def new : TextArea Line where
  text := ⟨[], 0, 0, 0⟩
  elements := []
  nextElementId := 0
  killBuffer := []
  undo := .default
  selection := none
  tabWidth := 4

/-- The cursor. -/
def cursor (s : TextArea Line) : ℕ := s.text.cursorByte

/-- The number of bytes of the text. -/
def len (s : TextArea Line) : ℕ := byteLen s.text.text

/-- The ranges of the elements. -/
def elementRanges (s : TextArea Line) : List ByteRange := s.elements.map TextElement.range

/-- A text with spaces for its tabs. -/
def expandTabs (s : TextArea Line) (text : Text) : Text :=
  if s.tabWidth = 0 ∨ '\t' ∉ text then text
  else text.flatMap fun c => if c = '\t' then List.replicate s.tabWidth ' ' else [c]

/-- The state, as it is kept in the history. -/
def snapshot (s : TextArea Line) : UndoEntry Line := ⟨s.text.text, s.cursor, s.elements⟩

section Unicode

variable (unicode : Unicode)

/-- Take the state of an entry of the history. -/
def restore (s : TextArea Line) (entry : UndoEntry Line) : TextArea Line :=
  { s with
    text := .fromParts unicode.toGraphemes entry.text entry.cursor (s.text.identity + 1)
    elements := entry.elements }

/-- Move the cursor to the boundary nearest to an offset. -/
def setCursorInner (s : TextArea Line) (pos : ℕ) : TextArea Line :=
  { s with text := (s.text.setCursorByte unicode.toGraphemes pos).1 }

end Unicode

/-- The element an offset is strictly inside of. -/
def findElementContaining (s : TextArea Line) (pos : ℕ) : Option (TextElement Line) :=
  s.elements.find? fun e => decide (e.range.start < pos ∧ pos < e.range.stop)

/-- An offset, moved out of the element it is strictly inside of. -/
def clampPosToNearestBoundary (s : TextArea Line) (pos : ℕ) : ℕ :=
  let pos := min pos s.len
  match s.findElementContaining pos with
  | some e => if pos - e.range.start ≤ e.range.stop - pos then e.range.start else e.range.stop
  | none => pos

/-- Move the cursor to an offset, out of the elements. -/
def setCursor (unicode : Unicode) (s : TextArea Line) (pos : ℕ) : TextArea Line :=
  s.setCursorInner unicode (s.clampPosToNearestBoundary (min pos s.len))

section History

/-- Keep the state before a mutation, unless the mutation continues the one before it. -/
def preMutate (s : TextArea Line) (kind : MutationKind) : TextArea Line :=
  if 0 < s.undo.groupDepth then s
  else
    let shouldPush : Bool :=
      match s.undo.lastKind with
      | none => true
      | some prev =>
        decide (prev ≠ kind) || decide (s.cursor ≠ s.undo.lastCursor) ||
          decide (kind = .kill ∨ kind = .element ∨ kind = .replace)
    let undo := if shouldPush then s.undo.push s.snapshot else s.undo
    { s with undo := { undo with redo := [], lastKind := some kind } }

/-- Note the cursor behind a mutation. -/
def postMutate (s : TextArea Line) : TextArea Line :=
  { s with undo := { s.undo with lastCursor := s.cursor } }

/-- Forget how the next mutation would continue the last one. -/
def resetBatching (s : TextArea Line) : TextArea Line :=
  { s with undo := { s.undo with lastKind := none, lastCursor := s.cursor } }

/-- Forget the history. -/
def clearHistory (s : TextArea Line) : TextArea Line :=
  resetBatching { s with undo := { s.undo with stack := [], redo := [] } }

/-- Take back the last mutation, if there is one. -/
def undoOnce (unicode : Unicode) (s : TextArea Line) : Bool × TextArea Line :=
  match s.undo.stack with
  | [] => (false, s)
  | entry :: stack =>
    let undo := { s.undo with stack := stack, redo := s.snapshot :: s.undo.redo }
    (true, (restore unicode { s with undo := undo } entry).resetBatching)

/-- Repeat the last mutation that was taken back, if there is one. -/
def redoOnce (unicode : Unicode) (s : TextArea Line) : Bool × TextArea Line :=
  match s.undo.redo with
  | [] => (false, s)
  | entry :: redo =>
    let undo := { s.undo with redo := redo, stack := s.snapshot :: s.undo.stack }
    (true, (restore unicode { s with undo := undo } entry).resetBatching)

/-- Open a group of mutations. -/
def beginUndoGroup (s : TextArea Line) : TextArea Line :=
  let checkpoint := if s.undo.groupDepth = 0 then some s.snapshot else s.undo.groupCheckpoint
  { s with
    undo := { s.undo with groupCheckpoint := checkpoint, groupDepth := s.undo.groupDepth + 1 } }

/-- Whether a state is seen to differ from an entry of the history. -/
def changedFrom (s : TextArea Line) (checkpoint : UndoEntry Line) : Bool :=
  decide (checkpoint.text ≠ s.text.text) || decide (checkpoint.cursor ≠ s.cursor) ||
    decide (checkpoint.elements.length ≠ s.elements.length)

/-- Close a group. The outermost one is kept in the history if something changed. -/
def endUndoGroup (s : TextArea Line) : TextArea Line :=
  match s.undo.groupDepth with
  | 0 => s
  | depth + 1 =>
    let undo := { s.undo with groupDepth := depth }
    if 0 < depth then { s with undo := undo }
    else
      let closed := { undo with groupCheckpoint := none }
      let undo :=
        match s.undo.groupCheckpoint with
        | some checkpoint =>
          if s.changedFrom checkpoint then { closed.push checkpoint with redo := [] } else closed
        | none => closed
      resetBatching { s with undo := undo }

/-- Close all groups and take back what was done since the outermost one was opened. -/
def cancelUndoGroup (unicode : Unicode) (s : TextArea Line) : TextArea Line :=
  if s.undo.groupDepth = 0 then s
  else
    let closed := { s with undo := { s.undo with groupDepth := 0, groupCheckpoint := none } }
    match s.undo.groupCheckpoint with
    | some checkpoint => (closed.restore unicode checkpoint).resetBatching
    | none => closed.resetBatching

end History

section Edits

variable (unicode : Unicode)

/-- Apply a plan that was checked. -/
def applyValidatedEditPlan (s : TextArea Line) (plan : EditPlan) (kind : Option MutationKind) :
    Option (TextArea Line × EditOutcome) := do
  let replaced := plan.replacedByteRange
  let insertedLen := byteLen plan.replacement
  let (text, outcome) ← s.text.applyValidatedPlan unicode.toGraphemes plan
  let s := { s with text := text }
  if isSemanticEdit plan then
    let adjust (position : ℕ) : ℕ := adjustPositionAfterEdit position replaced insertedLen
    let selection := s.selection.map fun sel => (⟨adjust sel.anchor, adjust sel.head⟩ : Selection)
    let edited := { s with
      elements := shiftElements s.elements replaced.start (replaced.stop - replaced.start) insertedLen
      selection := selection.filter fun sel => decide (sel.anchor ≠ sel.head)
      killBuffer := if kind = some .kill then plan.removedText else s.killBuffer }
    some (edited, outcome)
  else some (s, outcome)

/-- Apply a plan. There is no result where the plan fails its check. -/
def applyEditPlan (s : TextArea Line) (plan : EditPlan) (kind : Option MutationKind) :
    Option (TextArea Line × EditOutcome) :=
  match s.text.validatePlan unicode plan with
  | .error _ => none
  | .ok () =>
    match kind with
    | none => s.applyValidatedEditPlan unicode plan none
    | some kind =>
      if isSemanticEdit plan then
        ((s.preMutate kind).applyValidatedEditPlan unicode plan (some kind)).map
          fun (s, outcome) => (s.postMutate, outcome)
      else s.applyValidatedEditPlan unicode plan (some kind)

/-- Apply a command. -/
def applyEditCommand (s : TextArea Line) (command : EditCommand) (kind : Option MutationKind) :
    Option (TextArea Line × EditOutcome) :=
  s.applyEditPlan unicode (s.text.planCommand unicode command s.elementRanges) kind

/-- Plan to replace a range. -/
def planEditReplacement (s : TextArea Line) (range : ByteRange) (replacement : Text) : EditPlan :=
  s.text.planReplaceByteRange unicode range (s.expandTabs replacement) s.elementRanges

/-- Replace a range. -/
def applyEditReplacement (s : TextArea Line) (range : ByteRange) (replacement : Text)
    (kind : Option MutationKind) : Option (TextArea Line) :=
  (s.applyEditPlan unicode (s.planEditReplacement unicode range replacement) kind).map Prod.fst

/-- Replace the text. -/
def setText (s : TextArea Line) (text : Text) : Option (TextArea Line) :=
  let plan := s.planEditReplacement unicode ⟨0, s.len⟩ text
  match s.text.validatePlan unicode plan with
  | .error _ => none
  | .ok () => do
    let cursor := s.cursor
    let s := s.preMutate .replace
    let (buffer, _) ← s.text.applyValidatedPlan unicode.toGraphemes plan
    let s := { s with text := buffer, elements := [], selection := none }
    return (s.setCursorInner unicode (min cursor s.len)).postMutate

/-- Note whether the last character that was inserted is white space. -/
def noteInsertWs (s : TextArea Line) (text : Text) : TextArea Line :=
  match text.getLast? with
  | none => s
  | some c => { s with undo := { s.undo with lastInsertWs := isWhitespace c } }

/-- Insert a text at the cursor. -/
def insertStr (s : TextArea Line) (text : Text) : Option (TextArea Line) :=
  match text with
  | [] => some s
  | c :: _ => do
    let s :=
      if s.undo.lastKind = some .insert ∧ s.undo.lastInsertWs ≠ isWhitespace c then
        { s with undo := { s.undo with lastKind := none } }
      else s
    let s ← s.applyEditReplacement unicode ⟨s.cursor, s.cursor⟩ text (some .insert)
    return s.noteInsertWs text

/-- Insert a text at an offset. -/
def insertStrAt (s : TextArea Line) (pos : ℕ) (text : Text) : Option (TextArea Line) :=
  if text.isEmpty then some s
  else do
    let s ← s.applyEditReplacement unicode ⟨pos, pos⟩ text (some .insert)
    return s.noteInsertWs text

/-- Replace a range. -/
def replaceRange (s : TextArea Line) (range : ByteRange) (text : Text) : Option (TextArea Line) :=
  s.applyEditReplacement unicode range text (some .replace)

/-- Apply a command of the keyboard. -/
def applyClassifiedCommand (s : TextArea Line) (command : EditCommand) : Option (TextArea Line) :=
  let apply (kind : Option MutationKind) := (s.applyEditCommand unicode command kind).map Prod.fst
  match command with
  | .insert character => s.insertStr unicode [character]
  | .moveGraphemeLeft | .moveGraphemeRight | .moveWordLeft _ | .moveWordRight _
  | .moveLogicalLineStart | .moveLogicalLineEnd => apply none
  | .deleteGraphemeBackward | .deleteGraphemeForward => apply (some .delete)
  | .deleteWordBackward _ | .deleteWordForward _ | .deleteToLineStart | .deleteToLineEnd =>
    apply (some .kill)

/-- Delete again and again, until nothing changes. -/
def deleteTimes (command : EditCommand) : ℕ → TextArea Line → Option (TextArea Line)
  | 0, s => some s
  | n + 1, s => do
    let (s, outcome) ← s.applyEditCommand unicode command (some .delete)
    if outcome = .unchanged then some s else deleteTimes command n s

/-- Delete some graphemes, as one step of the history. -/
def deleteGraphemes (s : TextArea Line) (command : EditCommand) (n : ℕ) : Option (TextArea Line) :=
  if n = 0 then some s
  else if n = 1 then (s.applyEditCommand unicode command (some .delete)).map Prod.fst
  else (deleteTimes unicode command n s.beginUndoGroup).map endUndoGroup

/-- Delete some graphemes before the cursor. -/
def deleteBackward (s : TextArea Line) (n : ℕ) : Option (TextArea Line) :=
  s.deleteGraphemes unicode .deleteGraphemeBackward n

/-- Delete some graphemes behind the cursor. -/
def deleteForward (s : TextArea Line) (n : ℕ) : Option (TextArea Line) :=
  s.deleteGraphemes unicode .deleteGraphemeForward n

/-- Kill what a command deletes. -/
def kill (s : TextArea Line) (command : EditCommand) : Option (TextArea Line) :=
  (s.applyEditCommand unicode command (some .kill)).map Prod.fst

/-- Kill the word before the cursor. -/
def deleteBackwardWord (s : TextArea Line) : Option (TextArea Line) :=
  s.kill unicode (.deleteWordBackward .small)

/-- Kill the word before the cursor, up to white space. -/
def deleteBackwardUnixWord (s : TextArea Line) : Option (TextArea Line) :=
  s.kill unicode (.deleteWordBackward .whitespaceDelimited)

/-- Kill the word behind the cursor. -/
def deleteForwardWord (s : TextArea Line) : Option (TextArea Line) :=
  s.kill unicode (.deleteWordForward .small)

/-- Kill to the end of the line. -/
def killToEndOfLine (s : TextArea Line) : Option (TextArea Line) := s.kill unicode .deleteToLineEnd

/-- Kill to the start of the line. -/
def killToBeginningOfLine (s : TextArea Line) : Option (TextArea Line) :=
  s.kill unicode .deleteToLineStart

/-- The start of a line, where line feeds inside elements do not end lines. -/
def beginningOfLine (s : TextArea Line) (pos : ℕ) : ℕ :=
  behindLineFeed s.text.text s.elementRanges pos

/-- The end of a line, where line feeds inside elements do not end lines. -/
def endOfLine (s : TextArea Line) (pos : ℕ) : ℕ :=
  (firstLineFeed s.text.text s.elementRanges (s.len - pos) pos).getD s.len

/-- Kill the line of the cursor, or the line feed before it where the line is empty. -/
def killCurrentLine (s : TextArea Line) : Option (TextArea Line) :=
  let bol := s.beginningOfLine s.cursor
  let eol := s.endOfLine s.cursor
  if bol = eol then
    if 0 < bol then s.applyEditReplacement unicode ⟨bol - 1, bol⟩ [] (some .kill) else some s
  else s.applyEditReplacement unicode ⟨bol, eol⟩ [] (some .kill)

end Edits

section Selections

/-- A range, made larger until it takes elements whole. -/
def expandRangeToElementBoundaries (s : TextArea Line) (range : ByteRange) : ByteRange :=
  expandToAtomic s.elementRanges (s.elements.length + 1) range

/-- The last character boundary up to an offset. -/
def charBoundaryBefore (t : Text) : ℕ → ℕ
  | 0 => 0
  | n + 1 => if (splitBytes (n + 1) t).isSome then n + 1 else charBoundaryBefore t n

/-- The first character boundary from an offset on, of which some are tried. -/
def charBoundaryBehind (t : Text) : ℕ → ℕ → ℕ
  | 0, n => n
  | fuel + 1, n => if (splitBytes n t).isSome then n else charBoundaryBehind t fuel (n + 1)

/-- The range that is selected. -/
def selectionRange (s : TextArea Line) : Option ByteRange :=
  s.selection.bind fun sel =>
    if sel.anchor = sel.head then none
    else
      let selected : ByteRange := ⟨min sel.anchor sel.head, max sel.anchor sel.head⟩
      let expanded := s.expandRangeToElementBoundaries selected
      let start := charBoundaryBefore s.text.text (min expanded.start s.len)
      let stop := charBoundaryBehind s.text.text (s.len - min expanded.stop s.len)
        (min expanded.stop s.len)
      if stop ≤ start then none else some (ByteRange.mk start stop)

/-- Clear the selection. -/
def clearSelection (s : TextArea Line) : TextArea Line := { s with selection := none }

/-- Select a range. -/
def setSelection (s : TextArea Line) (anchor head : ℕ) : TextArea Line :=
  { s with selection := some ⟨anchor, head⟩ }

variable (unicode : Unicode)

/-- Delete what is selected. -/
def deleteSelection (s : TextArea Line) : Option (TextArea Line) :=
  match s.selectionRange with
  | none => some s
  | some range => do
    let s ← s.applyEditReplacement unicode range [] (some .replace)
    return (s.setCursorInner unicode (min range.start s.len)).postMutate.clearSelection

/-- Insert a text in place of what is selected, as one step of the history. -/
def insertStrReplacingSelection (s : TextArea Line) (text : Text) : Option (TextArea Line) :=
  match s.selectionRange with
  | none => s.clearSelection.insertStr unicode text
  | some _ => do
    let s ← s.beginUndoGroup.deleteSelection unicode
    let s ← s.insertStr unicode text
    return s.endUndoGroup

/-- Insert what was killed last, in place of what is selected. -/
def yank (s : TextArea Line) : Option (TextArea Line) :=
  if s.killBuffer.isEmpty then some s
  else
    let text := s.killBuffer
    let insert (s : TextArea Line) :=
      s.applyEditReplacement unicode ⟨s.cursor, s.cursor⟩ text (some .insert)
    match s.selectionRange with
    | none => (insert s).map (noteInsertWs · text)
    | some _ => do
      let s ← s.beginUndoGroup.deleteSelection unicode
      let s ← insert s
      return s.endUndoGroup.noteInsertWs text

end Selections

section Elements

/-- Add an element. -/
def addElement (s : TextArea Line) (range : ByteRange) (kind : ℕ) (display : Option Line) :
    TextArea Line :=
  let element : TextElement Line := ⟨s.nextElementId, range, kind, display⟩
  { s with
    elements := (s.elements ++ [element]).insertionSort fun a b => a.range.start ≤ b.range.start
    nextElementId := s.nextElementId + 1 }

variable (unicode : Unicode)

/-- Apply a plan, and make an element of what it inserts. -/
def applyElementTransaction (s : TextArea Line) (plan : EditPlan) (kind : ℕ)
    (display : Option Line) : Option (TextArea Line) :=
  match s.text.validatePlan unicode plan with
  | .error _ => none
  | .ok () => do
    let start := plan.replacedByteRange.start
    let stop := start + byteLen plan.replacement
    let (s, _) ← (s.preMutate .element).applyValidatedEditPlan unicode plan (some .element)
    return ((s.addElement ⟨start, stop⟩ kind display).setCursor unicode stop).postMutate

/-- Insert an element at the cursor. -/
def insertElement (s : TextArea Line) (text : Text) (kind : ℕ) (display : Option Line) :
    Option (TextArea Line) :=
  s.applyElementTransaction unicode (s.planEditReplacement unicode ⟨s.cursor, s.cursor⟩ text) kind
    display

/-- Replace a range by an element. -/
def replaceRangeWithElement (s : TextArea Line) (range : ByteRange) (text : Text) (kind : ℕ)
    (display : Option Line) : Option (TextArea Line) :=
  s.applyElementTransaction unicode (s.planEditReplacement unicode range text) kind display

/-- Make an element a part of the text. -/
def inlineElement (s : TextArea Line) (id : ℕ) : TextArea Line :=
  match s.elements.find? fun e => decide (e.id = id) with
  | none => s
  | some e =>
    let s := s.preMutate .element
    let s := { s with elements := s.elements.eraseP fun e => decide (e.id = id) }
    let s := s.setCursorInner unicode e.range.stop
    { s with undo := { s.undo with lastKind := none } }

end Elements

section Moves

/-- The row of an offset, by its number. -/
def wrappedLineIndexByStart (lines : List ByteRange) (pos : ℕ) : Option ℕ :=
  match (lines.takeWhile fun r => decide (r.start ≤ pos)).length with
  | 0 => none
  | idx + 1 => some idx

/-- A row, and how it ends. -/
def rowWithEnd (lines : List ByteRange) (idx : ℕ) : Option (ByteRange × RowEnd) :=
  lines[idx]?.map fun row =>
    match lines[idx + 1]? with
    | some next => if next.start = row.stop then (row, .softWrap) else (row, .hardBreak)
    | none => (row, .hardBreak)

variable (unicode : Unicode)

/-- An offset, not behind the last grapheme of a part of the text. -/
def clampToLine (s : TextArea Line) (pos lineStart lineEnd : ℕ) : ℕ :=
  let line := (getBytes s.text.text lineStart lineEnd).getD []
  min pos (lineStart + unicode.previousGraphemeBoundary line (byteLen line))

/-- An offset, moved to where a row ends. -/
def clampToRow (s : TextArea Line) (pos : ℕ) (row : ByteRange) : RowEnd → ℕ
  | .hardBreak => pos
  | .softWrap =>
    let lastGraphemeStart := s.clampToLine unicode pos row.start row.stop
    match s.findElementContaining lastGraphemeStart with
    | none => lastGraphemeStart
    | some e => e.range.start

/-- The offset that is shown at a column of a row, found in at most some steps. -/
def displayColToBufferPos (s : TextArea Line) (view : View Line) (lineEnd : ℕ) : ℕ → ℕ → ℕ → ℕ
  | 0, _, _ => s.clampPosToNearestBoundary lineEnd
  | fuel + 1, pos, widthSoFar =>
    if lineEnd ≤ pos then s.clampPosToNearestBoundary lineEnd
    else
      let slice (start stop : ℕ) : Text := (getBytes s.text.text start stop).getD []
      match s.elements.find? fun e => decide (e.range.start ≤ pos ∧ pos < e.range.stop) with
      | some e =>
        let elemLineEnd := min e.range.stop lineEnd
        if pos = e.range.start then
          let width :=
            match e.display with
            | some display => view.displayWidth display
            | none => view.plainWidth (slice e.range.start elemLineEnd)
          if view.targetCol < widthSoFar + width then
            let distStart := view.targetCol - widthSoFar
            if distStart ≤ width - distStart then e.range.start else e.range.stop
          else s.displayColToBufferPos view lineEnd fuel elemLineEnd (widthSoFar + width)
        else
          let width := view.plainWidth (slice pos elemLineEnd)
          if view.targetCol < widthSoFar + width then e.range.stop
          else s.displayColToBufferPos view lineEnd fuel elemLineEnd (widthSoFar + width)
      | none =>
        let rest := slice pos lineEnd
        if rest.isEmpty then s.clampPosToNearestBoundary lineEnd
        else
          let graphemeLen := unicode.nextGraphemeBoundary rest 0
          let width := view.plainWidth (slice pos (pos + graphemeLen))
          if view.targetCol < widthSoFar + width then s.clampPosToNearestBoundary pos
          else s.displayColToBufferPos view lineEnd fuel (pos + graphemeLen) (widthSoFar + width)

/-- Where the cursor goes to a column of a row. -/
def displayColTarget (s : TextArea Line) (view : View Line) (row : ByteRange) (endKind : RowEnd) :
    ℕ :=
  let pos := s.displayColToBufferPos unicode view row.stop (row.stop - row.start) row.start 0
  s.clampToRow unicode pos row endKind

/-- The row of the cursor, when rows are known. -/
def currentRow (s : TextArea Line) (view : View Line) : Option (List ByteRange × ℕ) :=
  view.lines.bind fun lines => (wrappedLineIndexByStart lines s.cursor).map fun idx => (lines, idx)

/-- The last line feed before an offset. -/
def lastLineFeedBefore (t : Text) (n : ℕ) : Option ℕ :=
  match behindLineFeed t [] n with
  | 0 => none
  | feed + 1 => some feed

/-- Where the cursor goes up by a row. -/
def cursorUpTarget (s : TextArea Line) (view : View Line) : ℕ :=
  match s.currentRow view with
  | some (lines, idx) =>
    match (match idx with | 0 => none | prev + 1 => rowWithEnd lines prev) with
    | some (row, endKind) => s.displayColTarget unicode view row endKind
    | none => 0
  | none =>
    match lastLineFeedBefore s.text.text s.cursor with
    | some feed =>
      s.displayColTarget unicode view ⟨behindLineFeed s.text.text [] feed, feed⟩ .hardBreak
    | none => 0

/-- Where the cursor goes down by a row. -/
def cursorDownTarget (s : TextArea Line) (view : View Line) : ℕ :=
  match s.currentRow view with
  | some (lines, idx) =>
    match rowWithEnd lines (idx + 1) with
    | some (row, endKind) => s.displayColTarget unicode view row endKind
    | none => s.len
  | none =>
    match firstLineFeed s.text.text [] (s.len - s.cursor) s.cursor with
    | some feed =>
      let stop := (firstLineFeed s.text.text [] (s.len - (feed + 1)) (feed + 1)).getD s.len
      s.displayColTarget unicode view ⟨feed + 1, stop⟩ .hardBreak
    | none => s.len

/-- Move the cursor up by a row. -/
def moveCursorUp (s : TextArea Line) (view : View Line) : TextArea Line :=
  s.setCursorInner unicode (s.cursorUpTarget unicode view)

/-- Move the cursor down by a row. -/
def moveCursorDown (s : TextArea Line) (view : View Line) : TextArea Line :=
  s.setCursorInner unicode (s.cursorDownTarget unicode view)

/-- Where the row of the cursor starts, or its line where no rows are known. -/
def beginningOfLineTarget (s : TextArea Line) (view : View Line) : ℕ :=
  match s.currentRow view with
  | some (lines, idx) => (lines[idx]?.map ByteRange.start).getD (s.beginningOfLine s.cursor)
  | none => s.beginningOfLine s.cursor

/-- Where the row of the cursor ends, or its line where no rows are known. -/
def endOfLineTarget (s : TextArea Line) (view : View Line) : ℕ :=
  match s.currentRow view with
  | some (lines, idx) =>
    match rowWithEnd lines idx with
    | some (row, endKind) => s.clampToRow unicode row.stop row endKind
    | none => s.endOfLine s.cursor
  | none => s.endOfLine s.cursor

/-- Move the cursor to the start of the row or line. -/
def moveCursorToBeginningOfLine (s : TextArea Line) (view : View Line) : TextArea Line :=
  s.setCursor unicode (s.beginningOfLineTarget view)

/-- Move the cursor to the end of the row or line. -/
def moveCursorToEndOfLine (s : TextArea Line) (view : View Line) : TextArea Line :=
  s.setCursor unicode (s.endOfLineTarget unicode view)

end Moves

end TextArea

/-- What may be done with a text area. -/
inductive Op (Line : Type) where
  | insertStr (text : Text)
  | insertStrAt (pos : ℕ) (text : Text)
  | replaceRange (range : ByteRange) (text : Text)
  | setText (text : Text)
  | applyClassifiedCommand (command : EditCommand)
  | deleteBackward (n : ℕ)
  | deleteForward (n : ℕ)
  | deleteBackwardWord
  | deleteBackwardUnixWord
  | deleteForwardWord
  | killToEndOfLine
  | killToBeginningOfLine
  | killCurrentLine
  | yank
  | insertElement (text : Text) (kind : ℕ) (display : Option Line)
  | replaceRangeWithElement (range : ByteRange) (text : Text) (kind : ℕ) (display : Option Line)
  | inlineElement (id : ℕ)
  | setSelection (anchor head : ℕ)
  | clearSelection
  | deleteSelection
  | insertStrReplacingSelection (text : Text)
  | setCursor (pos : ℕ)
  | moveCursorUp (view : View Line)
  | moveCursorDown (view : View Line)
  | moveCursorToBeginningOfLine (view : View Line)
  | moveCursorToEndOfLine (view : View Line)
  | undo
  | redo
  | beginUndoGroup
  | endUndoGroup
  | cancelUndoGroup

namespace TextArea

variable {Line : Type} (unicode : Unicode)

/-- Do something with a text area. There is no result where an invariant of the editor fails. -/
def step (s : TextArea Line) : Op Line → Option (TextArea Line)
  | .insertStr text => s.insertStr unicode text
  | .insertStrAt pos text => s.insertStrAt unicode pos text
  | .replaceRange range text => s.replaceRange unicode range text
  | .setText text => s.setText unicode text
  | .applyClassifiedCommand command => s.applyClassifiedCommand unicode command
  | .deleteBackward n => s.deleteBackward unicode n
  | .deleteForward n => s.deleteForward unicode n
  | .deleteBackwardWord => s.deleteBackwardWord unicode
  | .deleteBackwardUnixWord => s.deleteBackwardUnixWord unicode
  | .deleteForwardWord => s.deleteForwardWord unicode
  | .killToEndOfLine => s.killToEndOfLine unicode
  | .killToBeginningOfLine => s.killToBeginningOfLine unicode
  | .killCurrentLine => s.killCurrentLine unicode
  | .yank => s.yank unicode
  | .insertElement text kind display => s.insertElement unicode text kind display
  | .replaceRangeWithElement range text kind display =>
    s.replaceRangeWithElement unicode range text kind display
  | .inlineElement id => some (s.inlineElement unicode id)
  | .setSelection anchor head => some (s.setSelection anchor head)
  | .clearSelection => some s.clearSelection
  | .deleteSelection => s.deleteSelection unicode
  | .insertStrReplacingSelection text => s.insertStrReplacingSelection unicode text
  | .setCursor pos => some (s.setCursor unicode pos)
  | .moveCursorUp view => some (s.moveCursorUp unicode view)
  | .moveCursorDown view => some (s.moveCursorDown unicode view)
  | .moveCursorToBeginningOfLine view => some (s.moveCursorToBeginningOfLine unicode view)
  | .moveCursorToEndOfLine view => some (s.moveCursorToEndOfLine unicode view)
  | .undo => some (s.undoOnce unicode).2
  | .redo => some (s.redoOnce unicode).2
  | .beginUndoGroup => some s.beginUndoGroup
  | .endUndoGroup => some s.endUndoGroup
  | .cancelUndoGroup => some (s.cancelUndoGroup unicode)

/-- Do several things one after the other. -/
def run (s : TextArea Line) : List (Op Line) → Option (TextArea Line)
  | [] => some s
  | op :: ops => (s.step unicode op).bind fun s => run s ops

end TextArea

end Ezer.Textarea
