import Ezer.ApplyPatch.Apply
import Ezer.Lib.Utf8

/-!
# The patch tool

A patch is parsed, the changes of all its sections are computed from the files
as they are, and then they are made one after another. Files are identified by
what their paths resolve to, so that different texts may name one file. Files
that belong to the memory of a session are written by its policy.
-/

namespace Ezer.ApplyPatch

open Ezer.Lib

variable {Path : Type} [DecidableEq Path]

/-- The files and their bytes. -/
abbrev FileSystem (Path : Type) := Path → Option (List UInt8)

/-- The policy of a session for its memory files: whether a path is one, whether a write
is permitted, and whether it is carried out by the policy. -/
structure MemoryAccess (Path : Type) where
  validateRead : Path → Except Text Bool
  preflightWrite : Path → List UInt8 → Except Text Bool
  writeFile : Path → List UInt8 → Except Text Bool

/-- What the tool is given: how paths of a patch resolve, how a path is shown, and the
policy of the session. -/
structure Context (Path : Type) where
  resolve : Text → Path
  display : Path → Text
  memory : Option (MemoryAccess Path)

/-- A change of a file. -/
inductive FileChange (Path : Type) where
  | add (path : Path) (content : Text)
  | delete (path : Path) (originalContent : Text)
  | update (path : Path) (originalContent newContent : Text)
  | move (sourcePath destPath : Path) (originalContent newContent : Text)

/-- What was done to a file. -/
inductive FileAction where
  | added
  | deleted
  | modified
  | moved

/-- The report on a file. -/
structure ApplyPatchFileResult (Path : Type) where
  path : Path
  action : FileAction
  oldText : Option Text
  newText : Text
  moveTo : Option Path

/-- What the tool returns. -/
inductive ApplyPatchOutput (Path : Type) where
  | parseError (message : Text)
  | emptyPatch (message : Text)
  | applicationError (message : Text)
  | success (files : List (ApplyPatchFileResult Path)) (toolOutputForPrompt : Text)

/-- The operating system refuses an operation. -/
structure ToolError where
  message : Text

/-- The error of an operation on a file that does not exist. -/
def notFound : Text := "No such file or directory (os error 2)".toList

/-- Read a file. -/
def readFileAsString (fs : FileSystem Path) (path : Path) : Except Text Text :=
  match fs path with
  | some bytes => .ok (fromUtf8Lossy bytes)
  | none => .error notFound

/-- Write a file. -/
def writeFile (fs : FileSystem Path) (path : Path) (bytes : List UInt8) : FileSystem Path :=
  Function.update fs path (some bytes)

/-- Delete a file. -/
def deleteFile (fs : FileSystem Path) (path : Path) : Except ToolError (FileSystem Path) :=
  match fs path with
  | some _ => .ok (Function.update fs path none)
  | none => .error ⟨notFound⟩

/-- The change of one section. -/
def computeChange (context : Context Path) (fs : FileSystem Path) :
    Hunk → Except Text (FileChange Path)
  | .addFile path contents => .ok (.add (context.resolve path) contents)
  | .deleteFile path =>
    let resolved := context.resolve path
    match readFileAsString fs resolved with
    | .error e =>
      .error ("Failed to read file: ".toList ++ context.display resolved ++ ", ".toList ++ e)
    | .ok originalContent => .ok (.delete resolved originalContent)
  | .updateFile path movePath chunks =>
    let resolved := context.resolve path
    match readFileAsString fs resolved with
    | .error e =>
      .error ("Failed to read file to update: ".toList ++ context.display resolved ++
        ", ".toList ++ e)
    | .ok originalContent =>
      match deriveNewContents originalContent (context.display resolved) chunks with
      | .error message => .error message
      | .ok newContent =>
        match movePath with
        | some dest =>
          .ok (.move resolved (context.resolve dest) originalContent newContent)
        | none => .ok (.update resolved originalContent newContent)

/-- The changes of all sections, computed from the files as they are. -/
def computeAllChanges (context : Context Path) (fs : FileSystem Path) :
    List Hunk → Except Text (List (FileChange Path))
  | [] => .ok []
  | hunk :: hunks =>
    match computeChange context fs hunk with
    | .error e => .error e
    | .ok change =>
      match computeAllChanges context fs hunks with
      | .error e => .error e
      | .ok changes => .ok (change :: changes)

/-- Check a write with the policy. -/
def preflightMemoryWrite (context : Context Path) (path : Path) (contents : List UInt8) :
    Except Text Bool :=
  match context.memory with
  | none => .ok false
  | some memory => memory.preflightWrite path contents

/-- Refuse to delete or move a memory file. -/
def rejectMemoryDestructivePath (context : Context Path) (path : Path) : Except Text Unit :=
  match context.memory with
  | none => .ok ()
  | some memory =>
    match memory.validateRead path with
    | .error e => .error e
    | .ok false => .ok ()
    | .ok true =>
      .error (context.display path ++
        (" is inside a memory directory; apply_patch cannot delete or move memory files. Use " ++
          "the memory workflow instead: edit topic files in place or manage memories with the " ++
          "memory tools.").toList)

/-- Check a change with the policy. -/
def preflightMemoryChange (context : Context Path) : FileChange Path → Except Text Unit
  | .add path content => (preflightMemoryWrite context path (encodeUtf8 content)).map fun _ => ()
  | .update path _ newContent =>
    (preflightMemoryWrite context path (encodeUtf8 newContent)).map fun _ => ()
  | .delete path _ => rejectMemoryDestructivePath context path
  | .move sourcePath destPath _ _ =>
    match rejectMemoryDestructivePath context sourcePath with
    | .error e => .error e
    | .ok () => rejectMemoryDestructivePath context destPath

/-- Check all changes with the policy. -/
def preflightMemoryChanges (context : Context Path) : List (FileChange Path) → Except Text Unit
  | [] => .ok ()
  | change :: changes =>
    match preflightMemoryChange context change with
    | .error e => .error e
    | .ok () => preflightMemoryChanges context changes

/-- The errors with which making a change ends. -/
inductive WriteError where
  | application (message : Text)
  | tool (error : ToolError)

/-- Write a file, by the policy if it is a memory file. -/
def writeViaMemory (context : Context Path) (fs : FileSystem Path) (path : Path)
    (contents : List UInt8) : Except WriteError (FileSystem Path) :=
  match context.memory with
  | none => .ok (writeFile fs path contents)
  | some memory =>
    match memory.writeFile path contents with
    | .error e => .error (.application e)
    | .ok _ => .ok (writeFile fs path contents)

/-- Make one change; the file system may be changed even if an error is returned. -/
def applyChange (context : Context Path) (fs : FileSystem Path) :
    FileChange Path → Except WriteError (ApplyPatchFileResult Path) × FileSystem Path
  | .add path content =>
    match writeViaMemory context fs path (encodeUtf8 content) with
    | .error e => (.error e, fs)
    | .ok fs => (.ok ⟨path, .added, none, content, none⟩, fs)
  | .delete path originalContent =>
    match deleteFile fs path with
    | .error e => (.error (.tool e), fs)
    | .ok fs => (.ok ⟨path, .deleted, some originalContent, [], none⟩, fs)
  | .update path originalContent newContent =>
    match writeViaMemory context fs path (encodeUtf8 newContent) with
    | .error e => (.error e, fs)
    | .ok fs => (.ok ⟨path, .modified, some originalContent, newContent, none⟩, fs)
  | .move sourcePath destPath originalContent newContent =>
    let fs := writeFile fs destPath (encodeUtf8 newContent)
    match deleteFile fs sourcePath with
    | .error e => (.error (.tool e), fs)
    | .ok fs => (.ok ⟨sourcePath, .moved, some originalContent, newContent, some destPath⟩, fs)

/-- Make the changes up to the first that cannot be made. -/
def applyChanges (context : Context Path) :
    FileSystem Path → List (FileChange Path) →
      Except WriteError (List (ApplyPatchFileResult Path)) × FileSystem Path
  | fs, [] => (.ok [], fs)
  | fs, change :: changes =>
    match applyChange context fs change with
    | (.error e, fs) => (.error e, fs)
    | (.ok result, fs) =>
      match applyChanges context fs changes with
      | (.error e, fs) => (.error e, fs)
      | (.ok results, fs) => (.ok (result :: results), fs)

/-- The letter of an action in the summary. -/
def FileAction.letter : FileAction → Char
  | .added => 'A'
  | .deleted => 'D'
  | .modified | .moved => 'M'

/-- The summary of a patch. -/
def buildSummary (context : Context Path) (results : List (ApplyPatchFileResult Path)) : Text :=
  "Success. Updated the following files:\n".toList ++
    results.flatMap fun r => [r.action.letter, ' '] ++ context.display r.path ++ ['\n']

/-- Apply sections. -/
def applyHunks (context : Context Path) (fs : FileSystem Path) (hunks : List Hunk) :
    Except ToolError (ApplyPatchOutput Path) × FileSystem Path :=
  if hunks.isEmpty then (.ok (.emptyPatch "No files were modified.".toList), fs)
  else
    match computeAllChanges context fs hunks with
    | .error message => (.ok (.applicationError message), fs)
    | .ok changes =>
      match preflightMemoryChanges context changes with
      | .error message => (.ok (.applicationError message), fs)
      | .ok () =>
        match applyChanges context fs changes with
        | (.error (.application message), fs) => (.ok (.applicationError message), fs)
        | (.error (.tool e), fs) => (.error e, fs)
        | (.ok results, fs) => (.ok (.success results (buildSummary context results)), fs)

/-- The decimal digits of a number. -/
def decimal (n : ℕ) : Text := (toString n).toList

/-- Apply a patch. -/
def run (context : Context Path) (fs : FileSystem Path) (patch : Text) :
    Except ToolError (ApplyPatchOutput Path) × FileSystem Path :=
  match parsePatch patch with
  | .error (.invalidPatchError m) => (.ok (.parseError ("Invalid patch: ".toList ++ m)), fs)
  | .error (.invalidHunkError message lineNumber) =>
    (.ok (.parseError ("Invalid patch hunk on line ".toList ++ decimal lineNumber ++
      ": ".toList ++ message)), fs)
  | .ok parsed => applyHunks context fs parsed.hunks

end Ezer.ApplyPatch
