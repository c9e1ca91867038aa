import Ezer.Hashline.Edits

/-!
# The edit tool

A request names a file and its edits. The content of the file is read, the
edits are applied to it, and the new content is written. A file that does not
exist is created by a request that writes a whole content.
-/

namespace Ezer.Hashline

open Ezer.Lib

/-- The parameters of the anchor scheme. -/
structure HashlineSchemeParams where
  scheme : Text := ['c', 'h', 'u', 'n', 'k']
  hashLen : ℕ := 3
  chunkSize : ℕ := 8

/-- The scheme of some parameters. -/
def HashlineSchemeParams.buildScheme (params : HashlineSchemeParams) :
    Except Text AnchorScheme :=
  let contentOnly : Bool :=
    params.scheme = ['c', 'o', 'n', 't', 'e', 'n', 't', '_', 'o', 'n', 'l', 'y']
  if !contentOnly && params.scheme ≠ ['c', 'h', 'u', 'n', 'k'] then
    .error ("unknown scheme \"".toList ++ params.scheme ++
      "\": expected \"chunk\" or \"content_only\"".toList)
  else if hlen : 0 < params.hashLen ∧ params.hashLen ≤ 4 then
    if contentOnly then .ok (.contentOnly ⟨params.hashLen, hlen.1, hlen.2⟩)
    else if hsize : 0 < params.chunkSize then
      .ok (.chunkFingerprint ⟨params.hashLen, hlen.1, hlen.2⟩ params.chunkSize hsize)
    else .error "chunk_size must be > 0".toList
  else .error ("hash_len must be 1..=4, got ".toList ++ digits params.hashLen)

/-- What reading each path gives. -/
abbrev FileSystem (Path : Type) := Path → Option (List UInt8)

/-- The error of an operation on a file. -/
structure FileError where
  notFound : Bool
  message : Text

/-- The paths and files that the tool works on, and the policy of the session for its
memory files, which writes a file itself or leaves it to the tool. -/
structure Host (Path : Type) where
  resolveModelPath : Text → Path
  display : Path → Text
  formatNotFoundError : Text → Path → Text
  tryCanonicalize : FileSystem Path → Path → Option Path
  tryResolveUnicodeFilename : FileSystem Path → Path → Option Path
  canonicalizeWithTimeout : FileSystem Path → Path → Path
  readFile : FileSystem Path → Path → Except FileError (List UInt8)
  writeFile : FileSystem Path → Path → List UInt8 → Except FileError Unit × FileSystem Path
  writeMemoryV2File :
    FileSystem Path → Path → List UInt8 → Except Text Bool × FileSystem Path
  unresolved : ∀ fs path, tryCanonicalize fs path = none → fs path = none
  written : ∀ fs path bytes, (writeFile fs path bytes).1 = .ok () →
    (writeFile fs path bytes).2 path = some bytes
  memoryWritten : ∀ fs path bytes, (writeMemoryV2File fs path bytes).1 = .ok true →
    (writeMemoryV2File fs path bytes).2 path = some bytes

/-- A request. -/
structure HashlineEditInput where
  filePath : Text
  edits : List HashlineOp

/-- One edit as it is shown. -/
structure SearchReplaceEditDetail where
  oldString : Text
  oldLine : ℕ
  newString : Text
  newLine : ℕ
  contextBefore : Text
  contextAfter : Text

/-- Applied edits as they are shown. -/
structure SearchReplaceEditsApplied where
  oldString : Text
  newString : Text
  toolOutputForPrompt : Text
  absolutePath : Text
  details : List SearchReplaceEditDetail

/-- What the tool returns. -/
inductive SearchReplaceOutput where
  | editsApplied (result : SearchReplaceEditsApplied)
  | fileNotFound (message : Text)
  | invalidInput (message : Text)
  | noMatchesFound (message filePath : Text)

/-- The lines of a range with a line feed after each. -/
def contextLines (ls : List Text) (start stop : ℕ) : Text :=
  if start < stop then
    match getRange ls start stop with
    | some span => joinLines span ++ ['\n']
    | none => []
  else []

/-- An edited region with the lines around it. -/
def editDetail (oldLines : List Text) (d : EditRegionDetail) : SearchReplaceEditDetail :=
  let oldIdx := d.oldLine - 1
  let oldTextLineCount := if d.oldText.isEmpty then 0 else (d.oldText.splitOn '\n').length
  let afterStart := oldIdx + oldTextLineCount
  { oldString := d.oldText
    oldLine := d.oldLine
    newString := d.newText
    newLine := d.newLine
    contextBefore := contextLines oldLines (oldIdx - 3) oldIdx
    contextAfter := contextLines oldLines afterStart (min (afterStart + 3) oldLines.length) }

/-- An error as it is shown, with fresh anchors to try. -/
def errorMessage (err : HashlineEditError) : Text :=
  err.message ++
    (match err.context with
      | none => []
      | some ctx =>
        "\n\n".toList ++
          (match err.contextStartLine with
            | some start =>
              "Fresh anchors around line ".toList ++ digits start ++
                " — use these to retry your edit:".toList
            | none => "Fresh anchors — use these to retry your edit:".toList) ++
          '\n' :: ctx) ++
    match err.shiftedAnchor with
    | none => []
    | some anchor => "\n\nSuggested anchor: ".toList ++ anchor

/-- The output of an edit as the output of the tool. -/
def toSearchReplace (result : ApplyResult) (filePath oldContent : Text) : SearchReplaceOutput :=
  match result.output with
  | .editsApplied applied =>
    let newText := result.newContent.getD []
    let details :=
      if result.editDetails.isEmpty then [⟨oldContent, 1, newText, 1, [], []⟩]
      else result.editDetails.map (editDetail (oldContent.splitOn '\n'))
    .editsApplied
      { oldString := oldContent
        newString := newText
        toolOutputForPrompt :=
          if applied.warnings.isEmpty then applied.snippet
          else joinLines applied.warnings ++ "\n\n".toList ++ applied.snippet
        absolutePath := applied.absolutePath
        details := details }
  | .error err =>
    match err.error with
    | .fileNotFound => .fileNotFound (errorMessage err)
    | .invalidInput => .invalidInput (errorMessage err)
    | _ => .noMatchesFound (errorMessage err) filePath

/-- The outcome of a request: what the tool returns, the files after it, and whether a write
to them failed. -/
structure RunResult (Path : Type) where
  output : Except Text SearchReplaceOutput
  files : FileSystem Path
  writeFailed : Bool

variable {Path : Type}

/-- A write, by the policy of the session or else to the file. -/
def writeThrough (host : Host Path) (fs : FileSystem Path) (policyPath path : Path)
    (bytes : List UInt8) : Except (Text ⊕ FileError) Unit × FileSystem Path :=
  match host.writeMemoryV2File fs policyPath bytes with
  | (.error message, fs) => (.error (.inl message), fs)
  | (.ok true, fs) => (.ok (), fs)
  | (.ok false, fs) =>
    match host.writeFile fs path bytes with
    | (.error e, fs) => (.error (.inr e), fs)
    | (.ok (), fs) => (.ok (), fs)

/-- A request for a path that names no file. -/
def createFile (host : Host Path) (fs : FileSystem Path) (input : HashlineEditInput)
    (joinedPath : Path) (scheme : AnchorScheme) : RunResult Path :=
  match input.edits with
  | [.write content] =>
    match writeThrough host fs joinedPath joinedPath (encodeUtf8 content) with
    | (.error (.inl message), fs) => ⟨.ok (.invalidInput message), fs, true⟩
    | (.error (.inr e), fs) =>
      if e.notFound then
        ⟨.ok (.fileNotFound (host.formatNotFoundError input.filePath joinedPath)), fs, true⟩
      else ⟨.ok (.invalidInput ("Failed to write file: ".toList ++ e.message)), fs, true⟩
    | (.ok (), fs) =>
      let abs := host.display (host.canonicalizeWithTimeout fs joinedPath)
      ⟨.ok (toSearchReplace (applyEdits content input.edits abs scheme) abs []), fs, false⟩
  | _ => ⟨.ok (.fileNotFound (host.formatNotFoundError input.filePath joinedPath)), fs, false⟩

/-- A request for a file. -/
def editFile (host : Host Path) (fs : FileSystem Path) (input : HashlineEditInput)
    (joinedPath path : Path) (scheme : AnchorScheme) : RunResult Path :=
  match host.readFile fs path with
  | .error e =>
    if e.notFound then
      ⟨.ok (.fileNotFound (host.formatNotFoundError input.filePath path)), fs, false⟩
    else ⟨.ok (.invalidInput ("Failed to read file: ".toList ++ e.message)), fs, false⟩
  | .ok fileBytes =>
    let oldContent := fromUtf8Lossy fileBytes
    let result := applyEdits oldContent input.edits (host.display path) scheme
    match result.newContent with
    | none => ⟨.ok (toSearchReplace result (host.display path) oldContent), fs, false⟩
    | some newContent =>
      match writeThrough host fs joinedPath path (encodeUtf8 newContent) with
      | (.error (.inl message), fs) => ⟨.ok (.invalidInput message), fs, true⟩
      | (.error (.inr e), fs) =>
        ⟨.ok (toSearchReplace
          (rejected
            { error := .ioError
              message := "Edits validated but failed to write file: ".toList ++ e.message ++
                ".".toList })
          (host.display path) oldContent), fs, true⟩
      | (.ok (), fs) => ⟨.ok (toSearchReplace result (host.display path) oldContent), fs, false⟩

/-- Carry out a request. -/
def run (host : Host Path) (params : Option HashlineSchemeParams) (fs : FileSystem Path)
    (input : HashlineEditInput) : RunResult Path :=
  if input.edits.isEmpty then
    ⟨.ok (.invalidInput "No edit operations provided.".toList), fs, false⟩
  else
    match (params.getD {}).buildScheme with
    | .error message => ⟨.error message, fs, false⟩
    | .ok scheme =>
      let joinedPath := host.resolveModelPath input.filePath
      match (host.tryCanonicalize fs joinedPath).or
          (host.tryResolveUnicodeFilename fs joinedPath) with
      | none => createFile host fs input joinedPath scheme
      | some path => editFile host fs input joinedPath path scheme

end Ezer.Hashline
