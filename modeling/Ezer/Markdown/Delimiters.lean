import Ezer.Lib.Slices

/-!
# Delimiters of mathematics

The backslash forms of mathematics in a text are rewritten as dollar forms while
the text arrives in chunks. What cannot be decided yet is held back; code is left
as it is.
-/

namespace Ezer.Markdown

open Lib

/-- The number of bytes after which no close is looked for. -/
def maxMathSourceLen : ℕ := 4096

/-- The tokens around an equation. -/
def envBegin : List UInt8 := encodeUtf8 "\\begin\x7bequation\x7d".toList

/-- The token before a starred equation. -/
def envBeginStarred : List UInt8 := encodeUtf8 "\\begin\x7bequation*\x7d".toList

/-- The token behind an equation. -/
def envEnd : List UInt8 := encodeUtf8 "\\end\x7bequation\x7d".toList

/-- The token behind a starred equation. -/
def envEndStarred : List UInt8 := encodeUtf8 "\\end\x7bequation*\x7d".toList

/-- The tokens around equations. -/
def envTokens : List (List UInt8) := [envBegin, envBeginStarred, envEnd, envEndStarred]

/-- What the next byte belongs to. -/
inductive State where
  | normal
  | inlineCode (run : ℕ)
  | fenced (ch : UInt8) (len : ℕ)
  deriving DecidableEq

/-- The state, and whether the next byte begins a line. -/
structure Mode where
  state : State
  atLineStart : Bool
  deriving DecidableEq

/-- The number of times a byte is repeated at the start. -/
def countRun (bytes : List UInt8) (ch : UInt8) : ℕ := (bytes.takeWhile (· == ch)).length

/-- What a search for a fence at the start of a line gives. -/
inductive FenceScan where
  | found (ch : UInt8) (len stop : ℕ)
  | no
  | needMore

/-- The spaces before a fence, of which there are at most three. -/
def fenceIndent (bytes : List UInt8) : ℕ := min 4 (countRun bytes ' '.toUInt8)

/-- Look for the start of a fenced block at the start of a line. -/
def scanFenceOpen (bytes : List UInt8) (finalFlush : Bool) : FenceScan :=
  let spaces := fenceIndent bytes
  if 4 ≤ spaces then .no
  else
    match bytes[spaces]? with
    | none => if finalFlush then .no else .needMore
    | some ch =>
      if ch ≠ '`'.toUInt8 ∧ ch ≠ '~'.toUInt8 then .no
      else
        let run := countRun (bytes.drop spaces) ch
        if spaces + run = bytes.length ∧ finalFlush = false then .needMore
        else if run < 3 then .no
        else .found ch run (spaces + run)

/-- Whether a byte is a blank in a line. -/
def isBlank (b : UInt8) : Bool := b == ' '.toUInt8 || b == '\t'.toUInt8

/-- Look for the end of a fenced block at the start of a line. -/
def scanFenceClose (bytes : List UInt8) (ch : UInt8) (len : ℕ) (finalFlush : Bool) : FenceScan :=
  let spaces := fenceIndent bytes
  if 4 ≤ spaces then .no
  else
    match bytes[spaces]? with
    | none => if finalFlush then .no else .needMore
    | some b =>
      if b ≠ ch then .no
      else
        let run := countRun (bytes.drop spaces) ch
        if spaces + run = bytes.length ∧ finalFlush = false then .needMore
        else if run < len then .no
        else
          match (bytes.drop (spaces + run)).dropWhile isBlank with
          | [] => if finalFlush then .found ch run (spaces + run) else .needMore
          | b :: _ => if b = '\n'.toUInt8 then .found ch run (spaces + run) else .no

/-- The longest of some tokens that some bytes start with, and whether the bytes are the start of
a token. -/
def matchTokens (tokens : List (List UInt8)) (bytes : List UInt8) : Option ℕ × Bool :=
  let matched := tokens.filter fun token =>
    decide (token.length ≤ bytes.length) && token.isPrefixOf bytes
  ((matched.map List.length).max?,
    tokens.any fun token => decide (bytes.length < token.length) && bytes.isPrefixOf token)

/-- What a backslash begins. -/
inductive Bs where
  | convert (dollars : Text) (len : ℕ)
  | inlineOpen
  | displayOpen (len : ℕ)
  | literal (len : ℕ)
  | needMore

/-- Look at what a backslash begins. -/
def classifyBackslash (bytes : List UInt8) (finalFlush : Bool) : Bs :=
  match bytes[1]? with
  | none => if finalFlush then .literal 1 else .needMore
  | some b =>
    if b = '\\'.toUInt8 then .literal 2
    else if b = '('.toUInt8 then .inlineOpen
    else if b = ')'.toUInt8 then .convert ['$'] 2
    else if b = '['.toUInt8 then .displayOpen 2
    else if b = ']'.toUInt8 then .convert ['$', '$'] 2
    else if b = 'b'.toUInt8 ∨ b = 'e'.toUInt8 then
      match matchTokens envTokens bytes with
      | (some len, _) => if b = 'b'.toUInt8 then .displayOpen len else .convert ['$', '$'] len
      | (none, couldExtend) => if couldExtend && !finalFlush then .needMore else .literal 1
    else .literal 1

/-- What a search for a close gives. -/
inductive Close where
  | found (close len : ℕ)
  | unmatched
  | needMore

/-- What is known where the bytes end before a close. -/
def Close.atEnd (finalFlush : Bool) : Close := if finalFlush then .unmatched else .needMore

/-- Look for the close of an inline formula, from a distance behind its opener on. -/
def findInlineClose (finalFlush : Bool) (k : ℕ) : List UInt8 → Close
  | [] => .atEnd finalFlush
  | b :: bytes =>
    if maxMathSourceLen < k then .unmatched
    else if b = '\\'.toUInt8 then
      match bytes with
      | [] => .atEnd finalFlush
      | c :: bytes =>
        if c = ')'.toUInt8 then .found k 2 else findInlineClose finalFlush (k + 2) bytes
    else findInlineClose finalFlush (k + 1) bytes

/-- Look for the close of a displayed formula, from a distance behind its opener on. -/
def findDisplayClose (finalFlush : Bool) (k : ℕ) : List UInt8 → Close
  | [] => .atEnd finalFlush
  | b :: bytes =>
    if maxMathSourceLen < k then .unmatched
    else if b = '\\'.toUInt8 then
      match bytes with
      | [] => .atEnd finalFlush
      | c :: rest =>
        if c = ']'.toUInt8 then .found k 2
        else if c = 'e'.toUInt8 then
          match matchTokens [envEnd, envEndStarred] (b :: c :: rest) with
          | (some len, _) => .found k len
          | (none, couldExtend) =>
            if couldExtend && !finalFlush then .needMore
            else findDisplayClose finalFlush (k + 2) rest
        else findDisplayClose finalFlush (k + 2) rest
    else if b = '$'.toUInt8 then
      if 2 ≤ countRun (b :: bytes) b then .found k 2
      else if bytes.isEmpty && !finalFlush then .needMore
      else findDisplayClose finalFlush (k + 1) bytes
    else if b = '\n'.toUInt8 then
      match bytes.dropWhile isBlank with
      | [] => .atEnd finalFlush
      | c :: _ =>
        if c = '\n'.toUInt8 ∨ c = '>'.toUInt8 then .unmatched
        else findDisplayClose finalFlush (k + 1) bytes
    else findDisplayClose finalFlush (k + 1) bytes

/-- A text without the characters of a kind at its ends. -/
def trimMatches (p : Char → Bool) (t : Text) : Text :=
  ((t.dropWhile p).reverse.dropWhile p).reverse

/-- Whether a character is white space that may not stand right inside a formula. -/
def isFlank (c : Char) : Bool := c == ' ' || (decide (9 ≤ c.toNat) && decide (c.toNat ≤ 13))

/-- A text of several lines on one line. -/
def joinedLines (text : Text) : Text :=
  if '\n' ∉ text then text
  else
    let trimmed := (lines text).map (trimMatches fun c => c == ' ' || c == '\t' || c == '\r')
    [' '].intercalate (trimmed.filter fun line => !line.isEmpty)

/-- One turn of the loop: a slice is off a character boundary, the loop stops and holds a text
back, or it goes on behind the text it took. -/
inductive Turn where
  | misaligned
  | stop (out held : Text)
  | go (out rest : Text) (mode : Mode)

/-- Take the first bytes and emit something for them. -/
def advance (rest : Text) (n : ℕ) (emit : Text → Text) (mode : Mode) : Turn :=
  match splitBytes n rest with
  | none => .misaligned
  | some (taken, rest) => .go (emit taken) rest mode

/-- The mode inside a line of ordinary text. -/
def Mode.inLine : Mode := ⟨.normal, false⟩

/-- Take an inline formula. -/
def takeInline (rest : Text) (finalFlush : Bool) : Turn :=
  match findInlineClose finalFlush 0 ((encodeUtf8 rest).drop 2) with
  | .found close _ =>
    match getBytes rest 2 (2 + close) with
    | none => .misaligned
    | some raw =>
      let inner := trimMatches isFlank raw
      if inner.isEmpty then advance rest 2 (fun _ => ['$']) .inLine
      else advance rest (2 + close + 2) (fun _ => ['$'] ++ joinedLines inner ++ ['$']) .inLine
  | .unmatched => advance rest 2 (fun _ => ['$']) .inLine
  | .needMore => .stop [] rest

/-- Take a displayed formula behind an opener. -/
def takeDisplay (rest : Text) (len : ℕ) (finalFlush : Bool) : Turn :=
  match findDisplayClose finalFlush 0 ((encodeUtf8 rest).drop len) with
  | .found close closeLen =>
    match getBytes rest len (len + close) with
    | none => .misaligned
    | some interior =>
      advance rest (len + close + closeLen)
        (fun _ => ['$', '$'] ++ joinedLines interior ++ ['$', '$']) .inLine
  | .unmatched => advance rest len (fun _ => ['$', '$']) .inLine
  | .needMore => .stop [] rest

/-- Whether a byte means nothing of its own in ordinary text. -/
def isOrdinary (b : UInt8) : Bool :=
  !(b == '\n'.toUInt8 || b == '`'.toUInt8 || b == '\\'.toUInt8 || b == '$'.toUInt8)

/-- A turn in ordinary text, apart from fences. -/
def turnNormal (rest : Text) (finalFlush : Bool) : Turn :=
  let bytes := encodeUtf8 rest
  match bytes with
  | [] => .stop [] rest
  | b :: _ =>
    if b = '\n'.toUInt8 then advance rest 1 (fun _ => ['\n']) ⟨.normal, true⟩
    else if b = '`'.toUInt8 then
      let run := countRun bytes b
      if run = bytes.length ∧ finalFlush = false then .stop [] rest
      else advance rest run id ⟨.inlineCode run, false⟩
    else if b = '\\'.toUInt8 then
      match classifyBackslash bytes finalFlush with
      | .needMore => .stop [] rest
      | .inlineOpen => takeInline rest finalFlush
      | .displayOpen len => takeDisplay rest len finalFlush
      | .convert dollars len => advance rest len (fun _ => dollars) .inLine
      | .literal len => advance rest len id .inLine
    else if b = '$'.toUInt8 then
      let run := countRun bytes b
      if run = 1 ∧ bytes.length = 1 ∧ finalFlush = false then .stop [] rest
      else if 2 ≤ run then takeDisplay rest 2 finalFlush
      else advance rest 1 (fun _ => ['$']) .inLine
    else advance rest (bytes.takeWhile isOrdinary).length id .inLine

/-- How the text of inline code goes on behind the bytes that were read. -/
inductive CodeEnd where
  | newline
  | closed
  | held
  | unended

/-- Read inline code: how many bytes, and how it goes on. -/
def scanInlineCode (run : ℕ) (finalFlush : Bool) (bytes : List UInt8) : ℕ × CodeEnd :=
  match h : bytes with
  | [] => (0, .unended)
  | b :: rest =>
    if b = '\n'.toUInt8 then (1, .newline)
    else if b = '`'.toUInt8 then
      let r := countRun bytes b
      if r = bytes.length ∧ finalFlush = false then (0, .held)
      else if r = run then (r, .closed)
      else
        let more := scanInlineCode run finalFlush (rest.drop (r - 1))
        (r + more.1, more.2)
    else
      let more := scanInlineCode run finalFlush rest
      (1 + more.1, more.2)
termination_by bytes.length
decreasing_by
  · simp only [List.length_drop, List.length_cons]
    omega
  · simp

/-- A turn inside inline code. -/
def turnInlineCode (rest : Text) (mode : Mode) (run : ℕ) (finalFlush : Bool) : Turn :=
  let (n, how) := scanInlineCode run finalFlush (encodeUtf8 rest)
  match how with
  | .newline => advance rest n id ⟨.normal, true⟩
  | .closed => advance rest n id .inLine
  | .unended => advance rest n id mode
  | .held =>
    match splitBytes n rest with
    | none => .misaligned
    | some (taken, rest) => .stop taken rest

/-- A turn inside a fenced block: the rest of its line. -/
def turnFencedLine (rest : Text) (ch : UInt8) (len : ℕ) : Turn :=
  let bytes := encodeUtf8 rest
  let line := (bytes.takeWhile (· != '\n'.toUInt8)).length
  if line < bytes.length then advance rest (line + 1) id ⟨.fenced ch len, true⟩
  else advance rest line id ⟨.fenced ch len, false⟩

/-- One turn of the loop. -/
def turn (rest : Text) (mode : Mode) (finalFlush : Bool) : Turn :=
  match mode.state with
  | .normal =>
    if mode.atLineStart then
      match scanFenceOpen (encodeUtf8 rest) finalFlush with
      | .needMore => .stop [] rest
      | .found ch len stop => advance rest stop id ⟨.fenced ch len, false⟩
      | .no => turnNormal rest finalFlush
    else turnNormal rest finalFlush
  | .inlineCode run => turnInlineCode rest mode run finalFlush
  | .fenced ch len =>
    if mode.atLineStart then
      match scanFenceClose (encodeUtf8 rest) ch len finalFlush with
      | .needMore => .stop [] rest
      | .found _ _ stop => advance rest stop id .inLine
      | .no => turnFencedLine rest ch len
    else turnFencedLine rest ch len

/-- The loop, for at most some turns: what is emitted, what is held back, and the mode. -/
def processFor (finalFlush : Bool) : ℕ → Text → Mode → Option (Text × Text × Mode)
  | _, [], mode => some ([], [], mode)
  | 0, _ :: _, _ => none
  | fuel + 1, c :: rest, mode =>
    match turn (c :: rest) mode finalFlush with
    | .misaligned => none
    | .stop out held => some (out, held, mode)
    | .go out rest mode =>
      (processFor finalFlush fuel rest mode).map fun (more, held, mode) => (out ++ more, held, mode)

/-- Process a text, which takes at most one turn for each character. -/
def process (buf : Text) (mode : Mode) (finalFlush : Bool) : Option (Text × Text × Mode) :=
  processFor finalFlush buf.length buf mode

/-- The normalizer between two chunks. -/
structure LatexDelimiterNormalizer where
  mode : Mode
  pending : Text
  deriving DecidableEq

namespace LatexDelimiterNormalizer

/-- A normalizer that has read nothing. -/
def new : LatexDelimiterNormalizer := ⟨⟨.normal, true⟩, []⟩

/-- Push a chunk. There is no result where a slice is off a character boundary. -/
def push (nz : LatexDelimiterNormalizer) (chunk : Text) :
    Option (Text × LatexDelimiterNormalizer) :=
  if chunk.isEmpty then some ([], nz)
  else (process (nz.pending ++ chunk) nz.mode false).map fun (out, held, mode) => (out, ⟨mode, held⟩)

/-- Flush what is held back, all of which must be consumed. -/
def finish (nz : LatexDelimiterNormalizer) : Option (Text × LatexDelimiterNormalizer) :=
  if nz.pending.isEmpty then some ([], nz)
  else
    match process nz.pending nz.mode true with
    | some (out, [], mode) => some (out, ⟨mode, []⟩)
    | _ => none

/-- Push chunks in their order. -/
def pushAll (nz : LatexDelimiterNormalizer) : List Text → Option (Text × LatexDelimiterNormalizer)
  | [] => some ([], nz)
  | chunk :: chunks => do
    let (out, nz) ← nz.push chunk
    let (more, nz) ← nz.pushAll chunks
    return (out ++ more, nz)

/-- What a fresh normalizer makes of a text that arrives in chunks. -/
def normalizeChunks (chunks : List Text) : Option Text := do
  let (out, nz) ← new.pushAll chunks
  let (more, _) ← nz.finish
  return out ++ more

end LatexDelimiterNormalizer

/-- Normalize a text at once. -/
def normalizeLatexDelimiters (s : Text) : Option Text := do
  let (out, nz) ← LatexDelimiterNormalizer.new.push s
  let (more, _) ← nz.finish
  return out ++ more

end Ezer.Markdown
