import Ezer.Lib.Trim

/-!
# The patch format

The parser of multi-file patches: a begin and an end marker around sections
that add, delete or update a file. An update has chunks, each with an optional
line of context, the lines it removes and the lines it adds. The parser works
on the lines of the patch and counts the lines it has consumed.
-/

namespace Ezer.ApplyPatch

open Ezer.Lib

/-- `*** Begin Patch` -/
def beginPatchMarker : Text :=
  ['*', '*', '*', ' ', 'B', 'e', 'g', 'i', 'n', ' ', 'P', 'a', 't', 'c', 'h']

/-- `*** End Patch` -/
def endPatchMarker : Text := ['*', '*', '*', ' ', 'E', 'n', 'd', ' ', 'P', 'a', 't', 'c', 'h']

/-- `*** Add File: ` -/
def addFileMarker : Text := ['*', '*', '*', ' ', 'A', 'd', 'd', ' ', 'F', 'i', 'l', 'e', ':', ' ']

/-- `*** Delete File: ` -/
def deleteFileMarker : Text :=
  ['*', '*', '*', ' ', 'D', 'e', 'l', 'e', 't', 'e', ' ', 'F', 'i', 'l', 'e', ':', ' ']

/-- `*** Update File: ` -/
def updateFileMarker : Text :=
  ['*', '*', '*', ' ', 'U', 'p', 'd', 'a', 't', 'e', ' ', 'F', 'i', 'l', 'e', ':', ' ']

/-- `*** Move to: ` -/
def moveToMarker : Text := ['*', '*', '*', ' ', 'M', 'o', 'v', 'e', ' ', 't', 'o', ':', ' ']

/-- `*** End of File` -/
def eofMarker : Text := ['*', '*', '*', ' ', 'E', 'n', 'd', ' ', 'o', 'f', ' ', 'F', 'i', 'l', 'e']

/-- `@@ ` -/
def changeContextMarker : Text := ['@', '@', ' ']

/-- `@@` -/
def emptyChangeContextMarker : Text := ['@', '@']

/-- Why a patch is not accepted. -/
inductive ParseError where
  | invalidPatchError (message : Text)
  | invalidHunkError (message : Text) (lineNumber : ℕ)
  deriving DecidableEq

/-- An edit within an updated file. -/
structure UpdateFileChunk where
  changeContext : Option Text
  oldLines : List Text
  newLines : List Text
  isEndOfFile : Bool
  deriving DecidableEq

/-- A section of a patch. -/
inductive Hunk where
  | addFile (path contents : Text)
  | deleteFile (path : Text)
  | updateFile (path : Text) (movePath : Option Text) (chunks : List UpdateFileChunk)
  deriving DecidableEq

/-- The sections of a patch and its text. -/
structure ParsedPatch where
  hunks : List Hunk
  patch : Text
  deriving DecidableEq

/-- Check the markers around a patch. -/
def checkStartAndEndLinesStrict (firstLine lastLine : Option Text) : Except ParseError Unit :=
  match firstLine.map trim, lastLine.map trim with
  | some first, some last =>
    if first = beginPatchMarker ∧ last = endPatchMarker then .ok ()
    else if first ≠ beginPatchMarker then
      .error (.invalidPatchError "The first line of the patch must be '*** Begin Patch'".toList)
    else .error (.invalidPatchError "The last line of the patch must be '*** End Patch'".toList)
  | some first, none =>
    if first ≠ beginPatchMarker then
      .error (.invalidPatchError "The first line of the patch must be '*** Begin Patch'".toList)
    else .error (.invalidPatchError "The last line of the patch must be '*** End Patch'".toList)
  | none, _ =>
    .error (.invalidPatchError "The last line of the patch must be '*** End Patch'".toList)

/-- Check the first and the last line of a patch. -/
def checkPatchBoundariesStrict (lines : List Text) : Except ParseError Unit :=
  checkStartAndEndLinesStrict lines.head? lines.getLast?

/-- The lines inside a here-document, if it has a patch. -/
def checkPatchBoundariesLenient (originalLines : List Text) (originalParseError : ParseError) :
    Except ParseError (List Text) :=
  match originalLines with
  | first :: rest@(_ :: _) =>
    let last := rest.getLast?.getD []
    if (first = "<<EOF".toList ∨ first = "<<'EOF'".toList ∨ first = "<<\"EOF\"".toList) ∧
        "EOF".toList.isSuffixOf last ∧ originalLines.length ≥ 4 then
      match checkPatchBoundariesStrict rest.dropLast with
      | .ok () => .ok rest.dropLast
      | .error e => .error e
    else .error originalParseError
  | _ => .error originalParseError

/-- The contents of an added file and the number of its lines. -/
def parseAddLines : List Text → Text × ℕ
  | ('+' :: line) :: rest =>
    let (contents, parsed) := parseAddLines rest
    (line ++ '\n' :: contents, parsed + 1)
  | _ => ([], 0)

/-- The lines of a chunk after its context, with what was parsed before them. -/
def parseChunkLines (lineNumber : ℕ) :
    List Text → UpdateFileChunk → ℕ → Except ParseError (UpdateFileChunk × ℕ)
  | [], chunk, parsed => .ok (chunk, parsed)
  | line :: rest, chunk, parsed =>
    if line = eofMarker then
      if parsed = 0 then
        .error (.invalidHunkError "Update hunk does not contain any lines".toList (lineNumber + 1))
      else .ok ({ chunk with isEndOfFile := true }, parsed + 1)
    else
      match line with
      | [] =>
        parseChunkLines lineNumber rest
          { chunk with oldLines := chunk.oldLines ++ [[]], newLines := chunk.newLines ++ [[]] }
          (parsed + 1)
      | ' ' :: l =>
        parseChunkLines lineNumber rest
          { chunk with oldLines := chunk.oldLines ++ [l], newLines := chunk.newLines ++ [l] }
          (parsed + 1)
      | '+' :: l =>
        parseChunkLines lineNumber rest { chunk with newLines := chunk.newLines ++ [l] }
          (parsed + 1)
      | '-' :: l =>
        parseChunkLines lineNumber rest { chunk with oldLines := chunk.oldLines ++ [l] }
          (parsed + 1)
      | _ =>
        if parsed = 0 then
          .error (.invalidHunkError
            ("Unexpected line found in update hunk: '".toList ++ line ++
              ("'. Every line should start with ' ' (context line), '+' (added line), " ++
                "or '-' (removed line)").toList) (lineNumber + 1))
        else .ok (chunk, parsed)

/-- The context of a chunk and the number of its lines. -/
def parseChangeContext (first : Text) (lineNumber : ℕ) (allowMissingContext : Bool) :
    Except ParseError (Option Text × ℕ) :=
  if first = emptyChangeContextMarker then .ok (none, 1)
  else
    match stripStart changeContextMarker first with
    | some context => .ok (some context, 1)
    | none =>
      if !allowMissingContext then
        .error (.invalidHunkError
          ("Expected update hunk to start with a @@ context marker, got: '".toList ++ first ++
            "'".toList) lineNumber)
      else .ok (none, 0)

/-- The first chunk of some lines and the number of its lines. -/
def parseUpdateFileChunk (lines : List Text) (lineNumber : ℕ) (allowMissingContext : Bool) :
    Except ParseError (UpdateFileChunk × ℕ) :=
  match lines with
  | [] => .error (.invalidHunkError "Update hunk does not contain any lines".toList lineNumber)
  | first :: _ =>
    match parseChangeContext first lineNumber allowMissingContext with
    | .error e => .error e
    | .ok (changeContext, startIndex) =>
      if startIndex ≥ lines.length then
        .error (.invalidHunkError "Update hunk does not contain any lines".toList (lineNumber + 1))
      else
        match parseChunkLines lineNumber (lines.drop startIndex) ⟨changeContext, [], [], false⟩ 0 with
        | .error e => .error e
        | .ok (chunk, parsed) => .ok (chunk, parsed + startIndex)

/-- The chunks of an update, with what was parsed before them. Every round consumes a
line, so that `fuel` is the number of lines. -/
def parseChunks (lineNumber : ℕ) :
    ℕ → List Text → List UpdateFileChunk → ℕ → Except ParseError (List UpdateFileChunk × ℕ)
  | 0, _, chunks, parsed => .ok (chunks, parsed)
  | _ + 1, [], chunks, parsed => .ok (chunks, parsed)
  | fuel + 1, remaining@(first :: rest), chunks, parsed =>
    if trim first = [] then parseChunks lineNumber fuel rest chunks (parsed + 1)
    else if ['*', '*', '*'].isPrefixOf first then .ok (chunks, parsed)
    else
      match parseUpdateFileChunk remaining (lineNumber + parsed) chunks.isEmpty with
      | .error e => .error e
      | .ok (chunk, chunkLines) =>
        parseChunks lineNumber fuel (remaining.drop chunkLines) (chunks ++ [chunk])
          (parsed + chunkLines)

/-- The section of an updated file after its header. -/
def parseUpdate (path : Text) (rest : List Text) (lineNumber : ℕ) :
    Except ParseError (Hunk × ℕ) :=
  let movePath := rest.head?.bind (stripStart moveToMarker)
  let (remaining, parsed) := if movePath.isSome then (rest.drop 1, 2) else (rest, 1)
  match parseChunks lineNumber remaining.length remaining [] parsed with
  | .error e => .error e
  | .ok (chunks, parsed) =>
    if chunks.isEmpty then
      .error (.invalidHunkError
        ("Update file hunk for path '".toList ++ path ++ "' is empty".toList) lineNumber)
    else .ok (.updateFile path movePath chunks, parsed)

/-- The first section of some lines and the number of its lines. -/
def parseOneHunk (lines : List Text) (lineNumber : ℕ) : Except ParseError (Hunk × ℕ) :=
  match lines with
  | [] => .error (.invalidHunkError "hunk is empty".toList lineNumber)
  | first :: rest =>
    let firstLine := trim first
    match stripStart addFileMarker firstLine with
    | some path =>
      let (contents, parsed) := parseAddLines rest
      .ok (.addFile path contents, parsed + 1)
    | none =>
      match stripStart deleteFileMarker firstLine with
      | some path => .ok (.deleteFile path, 1)
      | none =>
        match stripStart updateFileMarker firstLine with
        | some path => parseUpdate path rest lineNumber
        | none =>
          .error (.invalidHunkError
            ("'".toList ++ firstLine ++
              ("' is not a valid hunk header. Valid hunk headers: " ++
                "'*** Add File: \x7bpath\x7d', '*** Delete File: \x7bpath\x7d', " ++
                "'*** Update File: \x7bpath\x7d'").toList) lineNumber)

/-- The sections of some lines. Every section consumes a line, so that `fuel` is the
number of lines. -/
def parseHunks : ℕ → List Text → ℕ → Except ParseError (List Hunk)
  | 0, _, _ => .ok []
  | _ + 1, [], _ => .ok []
  | fuel + 1, remaining@(_ :: _), lineNumber =>
    match parseOneHunk remaining lineNumber with
    | .error e => .error e
    | .ok (hunk, hunkLines) =>
      match parseHunks fuel (remaining.drop hunkLines) (lineNumber + hunkLines) with
      | .error e => .error e
      | .ok hunks => .ok (hunk :: hunks)

/-- Parse the lines of a patch between its markers. -/
def parsePatchLines (lines : List Text) : Except ParseError ParsedPatch :=
  let inner := (lines.drop 1).dropLast
  match parseHunks inner.length inner 2 with
  | .error e => .error e
  | .ok hunks => .ok ⟨hunks, joinLines lines⟩

/-- Parse a patch, possibly inside a here-document. -/
def parsePatch (patch : Text) : Except ParseError ParsedPatch :=
  let patchLines := lines (trim patch)
  match checkPatchBoundariesStrict patchLines with
  | .ok () => parsePatchLines patchLines
  | .error e =>
    match checkPatchBoundariesLenient patchLines e with
    | .error e => .error e
    | .ok inner => parsePatchLines inner

section Fuel

theorem le_of_parseChunkLines {n parsed parsed' : ℕ} {rest : List Text}
    {chunk chunk' : UpdateFileChunk}
    (h : parseChunkLines n rest chunk parsed = .ok (chunk', parsed')) : parsed ≤ parsed' := by
  induction rest generalizing chunk parsed with
  | nil =>
    cases h
    exact Nat.le_refl _
  | cons line rest ih =>
    unfold parseChunkLines at h
    split at h
    · split at h
      · cases h
      · cases h
        omega
    · split at h
      · exact Nat.le_of_succ_le (ih h)
      · exact Nat.le_of_succ_le (ih h)
      · exact Nat.le_of_succ_le (ih h)
      · exact Nat.le_of_succ_le (ih h)
      · split at h
        · cases h
        · cases h
          exact Nat.le_refl _

theorem pos_of_parseChunkLines {n parsed : ℕ} {line : Text} {rest : List Text}
    {chunk chunk' : UpdateFileChunk}
    (h : parseChunkLines n (line :: rest) chunk 0 = .ok (chunk', parsed)) : 0 < parsed := by
  unfold parseChunkLines at h
  split at h
  · split at h
    · cases h
    · rename_i hne
      exact (hne rfl).elim
  · split at h
    · exact le_of_parseChunkLines h
    · exact le_of_parseChunkLines h
    · exact le_of_parseChunkLines h
    · exact le_of_parseChunkLines h
    · split at h
      · cases h
      · rename_i hne
        exact (hne rfl).elim

/-- A chunk has a line. -/
theorem pos_of_parseUpdateFileChunk {lines : List Text} {n chunkLines : ℕ} {missing : Bool}
    {chunk : UpdateFileChunk}
    (h : parseUpdateFileChunk lines n missing = .ok (chunk, chunkLines)) : 0 < chunkLines := by
  unfold parseUpdateFileChunk at h
  split at h
  · cases h
  · split at h
    · cases h
    · rename_i startIndex _
      split at h
      · cases h
      · rename_i hlt
        split at h
        · cases h
        · rename_i parsed hparse
          cases h
          cases hdrop : List.drop startIndex _ with
          | nil =>
            rw [List.drop_eq_nil_iff] at hdrop
            exact (hlt hdrop).elim
          | cons line rest =>
            rw [hdrop] at hparse
            have hpos := pos_of_parseChunkLines hparse
            omega

/-- The chunks do not run out of fuel. -/
theorem parseChunks_fuel (n : ℕ) {fuel : ℕ} {remaining : List Text}
    (h : remaining.length ≤ fuel) (chunks : List UpdateFileChunk) (parsed : ℕ) :
    parseChunks n (fuel + 1) remaining chunks parsed = parseChunks n fuel remaining chunks parsed := by
  induction fuel generalizing remaining chunks parsed with
  | zero =>
    rw [List.length_eq_zero_iff.mp (Nat.le_zero.mp h)]
    rfl
  | succ fuel ih =>
    cases remaining with
    | nil => rfl
    | cons first rest =>
      rw [List.length_cons] at h
      rw [parseChunks, parseChunks]
      split
      · exact ih (by omega) chunks (parsed + 1)
      · split
        · rfl
        · split
          · rfl
          · rename_i chunk chunkLines hparse
            have hpos := pos_of_parseUpdateFileChunk hparse
            apply ih
            rw [List.length_drop, List.length_cons]
            omega

theorem le_of_parseChunks {n fuel parsed parsed' : ℕ} {remaining : List Text}
    {chunks chunks' : List UpdateFileChunk}
    (h : parseChunks n fuel remaining chunks parsed = .ok (chunks', parsed')) :
    parsed ≤ parsed' := by
  induction fuel generalizing remaining chunks parsed with
  | zero =>
    cases h
    exact Nat.le_refl _
  | succ fuel ih =>
    cases remaining with
    | nil =>
      cases h
      exact Nat.le_refl _
    | cons first rest =>
      rw [parseChunks] at h
      split at h
      · exact Nat.le_of_succ_le (ih h)
      · split at h
        · cases h
          exact Nat.le_refl _
        · split at h
          · cases h
          · exact Nat.le_of_add_right_le (ih h)

/-- A section has a line. -/
theorem pos_of_parseOneHunk {lines : List Text} {n hunkLines : ℕ} {hunk : Hunk}
    (h : parseOneHunk lines n = .ok (hunk, hunkLines)) : 0 < hunkLines := by
  unfold parseOneHunk at h
  split at h
  · cases h
  · dsimp only at h
    split at h
    · cases h
      exact Nat.succ_pos _
    · split at h
      · cases h
        exact Nat.one_pos
      · split at h
        · unfold parseUpdate at h
          dsimp only at h
          split at h
          · cases h
          · rename_i hchunks
            have hle := le_of_parseChunks hchunks
            split at h
            · cases h
            · cases h
              split at hle
              · exact Nat.lt_of_lt_of_le Nat.two_pos hle
              · exact hle
        · cases h

/-- The sections do not run out of fuel. -/
theorem parseHunks_fuel {fuel : ℕ} {remaining : List Text} (h : remaining.length ≤ fuel) (n : ℕ) :
    parseHunks (fuel + 1) remaining n = parseHunks fuel remaining n := by
  induction fuel generalizing remaining n with
  | zero =>
    rw [List.length_eq_zero_iff.mp (Nat.le_zero.mp h)]
    rfl
  | succ fuel ih =>
    cases remaining with
    | nil => rfl
    | cons first rest =>
      rw [List.length_cons] at h
      rw [parseHunks, parseHunks]
      split
      · rfl
      · rename_i hunk hunkLines hparse
        have hpos := pos_of_parseOneHunk hparse
        rw [ih]
        rw [List.length_drop, List.length_cons]
        omega

end Fuel

end Ezer.ApplyPatch
