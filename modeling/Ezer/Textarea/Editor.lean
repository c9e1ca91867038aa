import Ezer.Lib.Trim
import Ezer.Textarea.Graphemes
import Mathlib.Data.List.Sort

/-!
# The edit buffer

A text with a cursor. An edit is first planned, as a range to be replaced and a cursor
behind it, and then applied. Some ranges of the text are atomic: an edit takes them
whole.
-/

namespace Ezer.Textarea

open Lib

/-- The segmentation of texts, and the letters and digits. -/
structure Unicode extends Graphemes where
  isAlphanumeric : Char → Bool

/-- A range of bytes. -/
structure ByteRange where
  start : ℕ
  stop : ℕ
  deriving DecidableEq

/-- What ends a word. -/
inductive WordStyle where
  | small
  | whitespaceDelimited
  deriving DecidableEq

/-- A command of the editor. -/
inductive EditCommand where
  | insert (character : Char)
  | moveGraphemeLeft
  | moveGraphemeRight
  | moveWordLeft (style : WordStyle)
  | moveWordRight (style : WordStyle)
  | moveLogicalLineStart
  | moveLogicalLineEnd
  | deleteGraphemeBackward
  | deleteGraphemeForward
  | deleteWordBackward (style : WordStyle)
  | deleteWordForward (style : WordStyle)
  | deleteToLineStart
  | deleteToLineEnd

/-- The ranges an edit replaced and inserted. -/
structure EditDelta where
  replacedByteRange : ByteRange
  insertedByteRange : ByteRange
  deriving DecidableEq

/-- What an edit changed. -/
inductive EditOutcome where
  | unchanged
  | cursorOnly
  | textOnly (delta : EditDelta)
  | textAndCursor (delta : EditDelta)
  deriving DecidableEq

/-- The outcome of some changes. -/
def EditOutcome.fromChanges (delta : Option EditDelta) (cursorChanged : Bool) : EditOutcome :=
  match delta, cursorChanged with
  | none, false => .unchanged
  | none, true => .cursorOnly
  | some delta, false => .textOnly delta
  | some delta, true => .textAndCursor delta

/-- Whether the cursor of a plan is a boundary, or is moved right to one. -/
inductive PostEditCursorAffinity where
  | exact
  | right
  deriving DecidableEq

/-- A planned edit. -/
structure EditPlan where
  replacedByteRange : ByteRange
  replacement : Text
  removedText : Text
  cursorByte : ℕ
  cursorAffinity : PostEditCursorAffinity
  sourceIdentity : ℕ
  sourceGeneration : ℕ

/-- Why a plan is not applied. -/
inductive ApplyEditPlanError where
  | stalePlan
  | invalidRange
  | removedTextMismatch
  | invalidCursor

/-- A text with a cursor. The identity and the generation tell the plans made from it from
others. -/
structure EditBuffer where
  text : Text
  cursorByte : ℕ
  identity : ℕ
  generation : ℕ
  deriving DecidableEq

/-- A byte of a text. -/
def byteAt (t : Text) (i : ℕ) : Option UInt8 := (encodeUtf8 t)[i]?

section AtomicRanges

variable (g : Graphemes) (t : Text)

/-- The first offset of a range, in either order. -/
def ByteRange.rawStart (r : ByteRange) (len : ℕ) : ℕ := min (min r.start r.stop) len

/-- The last offset of a range, in either order. -/
def ByteRange.rawEnd (r : ByteRange) (len : ℕ) : ℕ := min (max r.start r.stop) len

/-- An atomic range, moved out to boundaries. -/
def normalizeAtomicRange (r : ByteRange) : Option ByteRange :=
  let rawStart := r.rawStart (byteLen t)
  let rawEnd := r.rawEnd (byteLen t)
  if rawStart = rawEnd then none
  else
    let start := g.floorGraphemeBoundary t rawStart
    let stop := g.ceilGraphemeBoundary t rawEnd
    if start < stop then some ⟨start, stop⟩ else none

/-- The order of ranges. -/
def ByteRange.Le (a b : ByteRange) : Prop :=
  a.start < b.start ∨ a.start = b.start ∧ a.stop ≤ b.stop

instance : DecidableRel ByteRange.Le := fun a b =>
  inferInstanceAs (Decidable (a.start < b.start ∨ a.start = b.start ∧ a.stop ≤ b.stop))

/-- Merge ranges that have a byte in common, in their order. -/
def mergeRanges : ByteRange → List ByteRange → List ByteRange
  | previous, [] => [previous]
  | previous, r :: rs =>
    if r.start < previous.stop then mergeRanges ⟨previous.start, max previous.stop r.stop⟩ rs
    else previous :: mergeRanges r rs

/-- Atomic ranges, moved out to boundaries, in their order, and merged. -/
def normalizeAtomicRanges (ranges : List ByteRange) : List ByteRange :=
  match (ranges.filterMap (normalizeAtomicRange g t)).insertionSort ByteRange.Le with
  | [] => []
  | r :: rs => mergeRanges r rs

/-- A range with an atomic range it has a byte in common with. -/
def ByteRange.absorb (r atomic : ByteRange) : ByteRange :=
  if atomic.start < r.stop ∧ r.start < atomic.stop then
    ⟨min r.start atomic.start, max r.stop atomic.stop⟩
  else r

/-- A range, made larger until it takes atomic ranges whole. -/
def expandToAtomic (atomics : List ByteRange) : ℕ → ByteRange → ByteRange
  | 0, r => r
  | fuel + 1, r =>
    if atomics.foldl ByteRange.absorb r = r then r
    else expandToAtomic atomics fuel (atomics.foldl ByteRange.absorb r)

/-- A cursor, moved out of atomic ranges. -/
def normalizeCursorForAtomicRanges (cursorByte : ℕ) (atomics : List ByteRange) : ℕ :=
  match atomics.find? fun r => decide (r.start < cursorByte ∧ cursorByte < r.stop) with
  | none => cursorByte
  | some r => if cursorByte - r.start ≤ r.stop - cursorByte then r.start else r.stop

/-- A range to be replaced, moved out to boundaries and atomic ranges. -/
def normalizeReplacementRange (range : ByteRange) (atomics : List ByteRange) : ByteRange :=
  let rawStart := range.rawStart (byteLen t)
  let rawEnd := range.rawEnd (byteLen t)
  if rawStart = rawEnd then
    let cursor := normalizeCursorForAtomicRanges (g.normalizeExternalCursor t rawStart) atomics
    ⟨cursor, cursor⟩
  else
    expandToAtomic atomics (atomics.length + 1)
      ⟨g.floorGraphemeBoundary t rawStart, g.ceilGraphemeBoundary t rawEnd⟩

/-- The boundary before an offset that is in no atomic range. -/
def previousAtomicBoundary (byte : ℕ) (atomics : List ByteRange) : ℕ :=
  match atomics.find? fun r => decide (r.start < byte ∧ byte ≤ r.stop) with
  | some r => r.start
  | none =>
    let boundary := g.previousGraphemeBoundary t byte
    match atomics.find? fun r => decide (r.start < boundary ∧ boundary < r.stop) with
    | some r => r.start
    | none => boundary

/-- The boundary behind an offset that is in no atomic range. -/
def nextAtomicBoundary (byte : ℕ) (atomics : List ByteRange) : ℕ :=
  match atomics.find? fun r => decide (r.start ≤ byte ∧ byte < r.stop) with
  | some r => r.stop
  | none =>
    let boundary := g.nextGraphemeBoundary t byte
    match atomics.find? fun r => decide (r.start < boundary ∧ boundary < r.stop) with
    | some r => r.stop
    | none => boundary

/-- Whether a byte belongs to an atomic range. -/
def byteIsInsideAtomicRange (byte : ℕ) (atomics : List ByteRange) : Bool :=
  atomics.any fun r => decide (r.start ≤ byte ∧ byte < r.stop)

end AtomicRanges

section Words

/-- The class of a grapheme. -/
inductive WordClass where
  | whitespace
  | word
  | punctuation
  | atomic (index : ℕ)
  deriving DecidableEq

variable (unicode : Unicode) (t : Text) (style : WordStyle) (atomics : List ByteRange)

/-- The class of a grapheme, by its first character. -/
def wordClass (grapheme : Text) : Option WordClass :=
  grapheme.head?.map fun character =>
    if isWhitespace character then .whitespace
    else if style = .whitespaceDelimited ∨ unicode.isAlphanumeric character ∨ character = '_' then
      .word
    else .punctuation

/-- The class of what is between two offsets. -/
def atomicWordClass (start stop : ℕ) : Option WordClass :=
  match atomics.findIdx? fun r => decide (r.start = start ∧ r.stop = stop) with
  | some index =>
    match style with
    | .small => some (.atomic index)
    | .whitespaceDelimited => some .word
  | none => wordClass unicode style ((getBytes t start stop).getD [])

/-- Move left over what is of some class, for at most some steps. -/
def leftWhile (p : Option WordClass → Bool) : ℕ → ℕ → ℕ
  | 0, position => position
  | fuel + 1, position =>
    if position = 0 then position
    else
      let previous := previousAtomicBoundary unicode.toGraphemes t position atomics
      if p (atomicWordClass unicode t style atomics previous position) then
        leftWhile p fuel previous
      else position

/-- Move right over what is of some class, for at most some steps. -/
def rightWhile (p : Option WordClass → Bool) : ℕ → ℕ → ℕ
  | 0, position => position
  | fuel + 1, position =>
    if byteLen t ≤ position then position
    else
      let next := nextAtomicBoundary unicode.toGraphemes t position atomics
      if p (atomicWordClass unicode t style atomics position next) then rightWhile p fuel next
      else position

/-- The start of the word before a cursor. Every step to the left is over a byte at least. -/
def previousWordBoundary (cursorByte : ℕ) : ℕ :=
  let position :=
    leftWhile unicode t style atomics (· == some .whitespace) cursorByte cursorByte
  if position = 0 then 0
  else
    let previous := previousAtomicBoundary unicode.toGraphemes t position atomics
    let targetClass := atomicWordClass unicode t style atomics previous position
    leftWhile unicode t style atomics (· == targetClass) position position

/-- The end of the word behind a cursor. Every step to the right is over a byte at least. -/
def nextWordBoundary (cursorByte : ℕ) : ℕ :=
  let position :=
    rightWhile unicode t style atomics (· == some .whitespace) (byteLen t - cursorByte) cursorByte
  if position = byteLen t then position
  else
    let next := nextAtomicBoundary unicode.toGraphemes t position atomics
    let targetClass := atomicWordClass unicode t style atomics position next
    rightWhile unicode t style atomics (· == targetClass) (byteLen t - position) position

end Words

section Lines

variable (g : Graphemes) (t : Text) (atomics : List ByteRange)

/-- Whether a line feed that belongs to no atomic range is at an offset. -/
def isLineFeed (position : ℕ) : Bool :=
  byteAt t position == some '\n'.toUInt8 && !byteIsInsideAtomicRange position atomics

/-- The offset behind the last line feed before an offset. -/
def behindLineFeed : ℕ → ℕ
  | 0 => 0
  | position + 1 => if isLineFeed t atomics position then position + 1 else behindLineFeed position

/-- The start of the line of a cursor. -/
def lineStartAt (cursorByte : ℕ) : ℕ := behindLineFeed t atomics (min cursorByte (byteLen t))

/-- The first line feed from an offset on, of which some are tried. -/
def firstLineFeed : ℕ → ℕ → Option ℕ
  | 0, _ => none
  | fuel + 1, position =>
    if isLineFeed t atomics position then some position else firstLineFeed fuel (position + 1)

/-- The end of the line of a cursor. -/
def lineEndFrom (cursorByte : ℕ) : ℕ :=
  match firstLineFeed t atomics (byteLen t - min cursorByte (byteLen t))
      (min cursorByte (byteLen t)) with
  | none => byteLen t
  | some lineFeed =>
    if 0 < lineFeed ∧ byteAt t (lineFeed - 1) = some '\r'.toUInt8 then lineFeed - 1 else lineFeed

/-- The line break at the end of a line. -/
def lineEndingAt (lineEnd : ℕ) : Option ByteRange :=
  match getBytesFrom t lineEnd with
  | some ('\r' :: '\n' :: _) => some ⟨lineEnd, lineEnd + 2⟩
  | some ('\n' :: _) => some ⟨lineEnd, lineEnd + 1⟩
  | _ => none

/-- Where the cursor goes to the start of a line. -/
def logicalLineStartTarget (cursorByte : ℕ) : ℕ :=
  let lineStart := lineStartAt t atomics cursorByte
  if cursorByte = lineStart ∧ 0 < lineStart then
    lineStartAt t atomics (previousAtomicBoundary g t lineStart atomics)
  else lineStart

/-- Where the cursor goes to the end of a line. -/
def logicalLineEndTarget (cursorByte : ℕ) : ℕ :=
  let lineEnd := lineEndFrom t atomics cursorByte
  if cursorByte = lineEnd then
    match lineEndingAt t lineEnd with
    | none => lineEnd
    | some range => lineEndFrom t atomics range.stop
  else lineEnd

end Lines

namespace EditBuffer

/-- A text with a cursor at the boundary nearest to an offset. -/
def fromParts (g : Graphemes) (text : Text) (cursorByte identity : ℕ) : EditBuffer where
  text
  cursorByte := g.normalizeExternalCursor text cursorByte
  identity
  generation := 0

/-- The next generation. After the last number there is a new identity. -/
def advanceGeneration (b : EditBuffer) : EditBuffer :=
  if b.generation + 1 < 2 ^ 64 then { b with generation := b.generation + 1 }
  else { b with identity := b.identity + 1, generation := 0 }

/-- Move the cursor to the boundary nearest to an offset. -/
def setCursorByte (g : Graphemes) (b : EditBuffer) (cursorByte : ℕ) : EditBuffer × EditOutcome :=
  let cursor := g.normalizeExternalCursor b.text cursorByte
  let moved := { b with cursorByte := cursor }
  if cursor = b.cursorByte then (moved, .fromChanges none false)
  else (moved.advanceGeneration, .fromChanges none true)

variable (unicode : Unicode) (b : EditBuffer)

/-- A plan for this text. -/
def makePlan (replacedByteRange : ByteRange) (replacement : Text) (cursorByte : ℕ)
    (cursorAffinity : PostEditCursorAffinity) : EditPlan where
  replacedByteRange
  replacement
  removedText := (getBytes b.text replacedByteRange.start replacedByteRange.stop).getD []
  cursorByte
  cursorAffinity
  sourceIdentity := b.identity
  sourceGeneration := b.generation

/-- Plan to replace a range. -/
def planReplaceByteRange (range : ByteRange) (replacement : Text) (atomicByteRanges : List ByteRange) :
    EditPlan :=
  let atomics := normalizeAtomicRanges unicode.toGraphemes b.text atomicByteRanges
  let range := normalizeReplacementRange unicode.toGraphemes b.text range atomics
  let cursorByte := normalizeCursorForAtomicRanges b.cursorByte atomics
  let nextCursor :=
    if cursorByte < range.start then cursorByte
    else if cursorByte ≤ range.stop then range.start + byteLen replacement
    else cursorByte - (range.stop - range.start) + byteLen replacement
  b.makePlan range replacement nextCursor .right

/-- Plan a command. -/
def planCommand (command : EditCommand) (atomicByteRanges : List ByteRange) : EditPlan :=
  let g := unicode.toGraphemes
  let atomics := normalizeAtomicRanges g b.text atomicByteRanges
  let cursorByte := normalizeCursorForAtomicRanges b.cursorByte atomics
  let move (target : ℕ) : EditPlan := b.makePlan ⟨cursorByte, cursorByte⟩ [] target .exact
  let delete (start stop : ℕ) : EditPlan := b.makePlan ⟨start, stop⟩ [] start .right
  match command with
  | .insert character =>
    b.makePlan ⟨cursorByte, cursorByte⟩ [character] (cursorByte + character.utf8Size) .right
  | .moveGraphemeLeft => move (previousAtomicBoundary g b.text cursorByte atomics)
  | .moveGraphemeRight => move (nextAtomicBoundary g b.text cursorByte atomics)
  | .moveWordLeft style => move (previousWordBoundary unicode b.text style atomics cursorByte)
  | .moveWordRight style => move (nextWordBoundary unicode b.text style atomics cursorByte)
  | .moveLogicalLineStart => move (logicalLineStartTarget g b.text atomics cursorByte)
  | .moveLogicalLineEnd => move (logicalLineEndTarget b.text atomics cursorByte)
  | .deleteGraphemeBackward =>
    delete (previousAtomicBoundary g b.text cursorByte atomics) cursorByte
  | .deleteGraphemeForward => delete cursorByte (nextAtomicBoundary g b.text cursorByte atomics)
  | .deleteWordBackward style =>
    delete (previousWordBoundary unicode b.text style atomics cursorByte) cursorByte
  | .deleteWordForward style =>
    delete cursorByte (nextWordBoundary unicode b.text style atomics cursorByte)
  | .deleteToLineStart =>
    let lineStart := lineStartAt b.text atomics cursorByte
    let start :=
      if cursorByte = lineStart then previousAtomicBoundary g b.text lineStart atomics
      else lineStart
    delete start cursorByte
  | .deleteToLineEnd =>
    let lineEnd := lineEndFrom b.text atomics cursorByte
    let start := min cursorByte lineEnd
    let stop :=
      if lineEnd ≤ cursorByte then
        match lineEndingAt b.text lineEnd with
        | none => lineEnd
        | some range => range.stop
      else lineEnd
    delete start stop

/-- Check a plan. -/
def validatePlan (plan : EditPlan) : Except ApplyEditPlanError Unit :=
  let range := plan.replacedByteRange
  let g := unicode.toGraphemes
  if plan.sourceIdentity ≠ b.identity ∨ plan.sourceGeneration ≠ b.generation then
    .error .stalePlan
  else if range.stop < range.start ∨ byteLen b.text < range.stop ∨
      (splitBytes range.start b.text).isNone ∨ (splitBytes range.stop b.text).isNone ∨
      g.isBoundary b.text range.start = false ∨ g.isBoundary b.text range.stop = false then
    .error .invalidRange
  else if getBytes b.text range.start range.stop ≠ some plan.removedText then
    .error .removedTextMismatch
  else if byteLen b.text - (range.stop - range.start) + byteLen plan.replacement <
      plan.cursorByte then
    .error .invalidCursor
  else if plan.cursorAffinity = .exact ∧
      (plan.replacement ≠ plan.removedText ∨ g.isBoundary b.text plan.cursorByte = false) then
    .error .invalidCursor
  else .ok ()

end EditBuffer

/-- Replace a range of a text, whose ends must be between characters. -/
def replaceRange (t : Text) (range : ByteRange) (replacement : Text) : Option Text := do
  let (before, rest) ← splitBytes range.start t
  let (_, after) ← splitBytes (range.stop - range.start) rest
  return before ++ replacement ++ after

/-- Apply a plan that was checked. There is no result where the ends of its range are not between
characters. -/
def EditBuffer.applyValidatedPlan (g : Graphemes) (b : EditBuffer) (plan : EditPlan) :
    Option (EditBuffer × EditOutcome) := do
  let textChanged := decide (plan.removedText ≠ plan.replacement)
  let text ←
    if textChanged then replaceRange b.text plan.replacedByteRange plan.replacement
    else some b.text
  let cursorByte :=
    match plan.cursorAffinity with
    | .exact => plan.cursorByte
    | .right => g.ceilGraphemeBoundary text plan.cursorByte
  let cursorChanged := decide (cursorByte ≠ b.cursorByte)
  let edited : EditBuffer := { b with text := text, cursorByte := cursorByte }
  let start := plan.replacedByteRange.start
  let delta : EditDelta :=
    ⟨plan.replacedByteRange, ⟨start, start + byteLen plan.replacement⟩⟩
  return (if textChanged || cursorChanged then edited.advanceGeneration else edited,
    .fromChanges (if textChanged then some delta else none) cursorChanged)

end Ezer.Textarea
