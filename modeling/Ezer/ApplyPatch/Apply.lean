import Ezer.ApplyPatch.Parser
import Mathlib.Data.List.Sort

/-!
# Applying the chunks of an update

The lines of a chunk are looked for in the original lines, exactly at first
and then with less and less regard to white space and punctuation. Each chunk
gives a replacement of the original lines, and all replacements are made from
the last to the first.
-/

namespace Ezer.ApplyPatch

open Ezer.Lib

/-- The first index from `start` to `stop` at which the pattern is found. -/
def seekFrom (found : ℕ → Bool) (start stop : ℕ) : Option ℕ :=
  (List.range' start (stop + 1 - start)).find? found

/-- The lines at an index are the lines of the pattern up to a normal form. -/
def matchesAt (normal : Text → Text) (lines pattern : List Text) (i : ℕ) : Bool :=
  ((lines.drop i).take pattern.length).map normal = pattern.map normal

/-- Common Unicode punctuation as ASCII. -/
def normaliseChar (c : Char) : Char :=
  let n := c.toNat
  if (0x2010 ≤ n ∧ n ≤ 0x2015) ∨ n = 0x2212 then '-'
  else if 0x2018 ≤ n ∧ n ≤ 0x201B then '\''
  else if 0x201C ≤ n ∧ n ≤ 0x201F then '"'
  else if n = 0xA0 ∨ (0x2002 ≤ n ∧ n ≤ 0x200A) ∨ n = 0x202F ∨ n = 0x205F ∨ n = 0x3000 then ' '
  else c

/-- A line without surrounding white space, in ASCII punctuation. -/
def normalise (t : Text) : Text := (trim t).map normaliseChar

/-- The index of a pattern in some lines, at the end of the file if asked for. -/
def seekSequence (lines pattern : List Text) (start : ℕ) (eof : Bool) : Option ℕ :=
  if pattern.isEmpty then some start
  else if pattern.length > lines.length then none
  else
    let stop := lines.length - pattern.length
    let searchStart := if eof then stop else start
    (seekFrom (matchesAt id lines pattern) searchStart stop).or <|
      (seekFrom (matchesAt trimEnd lines pattern) searchStart stop).or <|
        (seekFrom (matchesAt trim lines pattern) searchStart stop).or <|
          seekFrom (matchesAt normalise lines pattern) searchStart stop

/-- A replacement: where it starts, how many lines it removes, and the new lines. -/
abbrev Replacement := ℕ × ℕ × List Text

/-- Whether the last line is empty. -/
def endsEmpty (lines : List Text) : Bool := lines.getLast?.any List.isEmpty

/-- The index after the context of a chunk. -/
def seekContext (originalLines : List Text) (path : Text) (context : Option Text)
    (lineIndex : ℕ) : Except Text ℕ :=
  match context with
  | none => .ok lineIndex
  | some line =>
    match seekSequence originalLines [line] lineIndex false with
    | some idx => .ok (idx + 1)
    | none =>
      .error ("Failed to find context '".toList ++ line ++ "' in ".toList ++ path)

/-- The replacement of a chunk that removes lines, which may be given with a trailing
empty line that the file does not have. -/
def seekChunk (originalLines : List Text) (chunk : UpdateFileChunk) (lineIndex : ℕ) :
    Option Replacement :=
  match seekSequence originalLines chunk.oldLines lineIndex chunk.isEndOfFile with
  | some start => some (start, chunk.oldLines.length, chunk.newLines)
  | none =>
    if endsEmpty chunk.oldLines then
      let pattern := chunk.oldLines.dropLast
      let newSlice :=
        if endsEmpty chunk.newLines then chunk.newLines.dropLast else chunk.newLines
      (seekSequence originalLines pattern lineIndex chunk.isEndOfFile).map fun start =>
        (start, pattern.length, newSlice)
    else none

/-- The replacements of some chunks, from a line on. -/
def chunkReplacements (originalLines : List Text) (path : Text) :
    List UpdateFileChunk → ℕ → Except Text (List Replacement)
  | [], _ => .ok []
  | chunk :: chunks, lineIndex =>
    match seekContext originalLines path chunk.changeContext lineIndex with
    | .error e => .error e
    | .ok lineIndex =>
      if chunk.oldLines.isEmpty then
        let insertionIdx :=
          if endsEmpty originalLines then originalLines.length - 1 else originalLines.length
        match chunkReplacements originalLines path chunks lineIndex with
        | .error e => .error e
        | .ok rest => .ok ((insertionIdx, 0, chunk.newLines) :: rest)
      else
        match seekChunk originalLines chunk lineIndex with
        | none =>
          .error ("Failed to find expected lines in ".toList ++ path ++ ":\n".toList ++
            joinLines chunk.oldLines)
        | some (start, oldLen, newLines) =>
          match chunkReplacements originalLines path chunks (start + oldLen) with
          | .error e => .error e
          | .ok rest => .ok ((start, oldLen, newLines) :: rest)

/-- The replacements of all chunks in the order of the lines. -/
def computeReplacements (originalLines : List Text) (path : Text)
    (chunks : List UpdateFileChunk) : Except Text (List Replacement) :=
  (chunkReplacements originalLines path chunks 0).map
    (List.insertionSort fun a b => a.1 ≤ b.1)

/-- Make one replacement. -/
def applyReplacement (lines : List Text) (replacement : Replacement) : List Text :=
  let (start, oldLen, newSegment) := replacement
  lines.take start ++ newSegment ++ lines.drop (start + oldLen)

/-- Make the replacements, the last one first. -/
def applyReplacements (lines : List Text) (replacements : List Replacement) : List Text :=
  replacements.reverse.foldl applyReplacement lines

/-- The new contents of an updated file. -/
def deriveNewContents (originalContent path : Text) (chunks : List UpdateFileChunk) :
    Except Text Text :=
  let split := originalContent.splitOn '\n'
  let originalLines := if endsEmpty split then split.dropLast else split
  match computeReplacements originalLines path chunks with
  | .error e => .error e
  | .ok replacements =>
    let newLines := applyReplacements originalLines replacements
    .ok (joinLines (if endsEmpty newLines then newLines else newLines ++ [[]]))

end Ezer.ApplyPatch
