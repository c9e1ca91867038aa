import Ezer.Workflow.Journal
import Ezer.Lib.LineLog

/-!
# The journal file

A file-backed journal appends one line to its file for every entry and cuts
the file when it gives up its last entry. Every write can fail after some of it
has reached the file, and the process can stop at any point. Loading a file reads
its complete lines and settles what stands after the last of them: a text
that is an entry is terminated, anything else is cut off.
-/

namespace Ezer.Workflow

open Ezer.Lib

/-- What `append_line` comes to. -/
inductive AppendOutcome where
  | done
  | notOpened (error : String)
  | cut (written : ℕ) (error : String)

/-- The number of bytes of a line that an append leaves in the file. -/
def AppendOutcome.written (outcome : AppendOutcome) (line : List UInt8) : ℕ :=
  match outcome with
  | .done => line.length
  | .notOpened _ => 0
  | .cut written _ => min written line.length

/-- What an append fails with. -/
def AppendOutcome.error : AppendOutcome → Option String
  | .done => none
  | .notOpened error => some error
  | .cut _ error => some error

/-- What `truncate_tail` comes to on a file that is there: after a failure the file is
cut or not. -/
inductive TruncateOutcome where
  | done
  | failed (cut : Bool) (error : String)

/-- What `terminate_line` comes to: after a failure the newline is written or not. -/
inductive TerminateOutcome where
  | done
  | failed (written : Bool) (error : String)

/-- Why a journal file could not be read. -/
inductive ReadError where
  | invalidData (error : String)
  | other (error : String)

/-- How the file operations of one load go. -/
structure LoadIo where
  read : Option ReadError
  truncate : TruncateOutcome
  terminate : TerminateOutcome

/-- A load in which every file operation succeeds. -/
def LoadIo.sound : LoadIo := ⟨none, .done, .done⟩

/-- A file, if there is one. -/
abbrev File := Option (List UInt8)

namespace File

/-- The bytes of a file; a file that is not there counts as empty. -/
def content (file : File) : List UInt8 := file.getD []

@[simp] theorem content_some (bytes : List UInt8) : File.content (some bytes) = bytes := rfl

/-- Append a line to a file, which is created when it is not there. -/
def appendLine (file : File) (line : List UInt8) : AppendOutcome → File × Except String Unit
  | .done => (some (file.content ++ line), .ok ())
  | .notOpened error => (file, .error error)
  | .cut written error => (some (file.content ++ line.take written), .error error)

/-- Give a file another length; a longer file is filled with zeros. -/
def setLen (content : List UInt8) (len : ℕ) : List UInt8 :=
  content.take len ++ List.replicate (len - content.length) 0

/-- Cut a file to a length. -/
def truncateTail (file : File) (len : ℕ) (outcome : TruncateOutcome) : File × Except String Unit :=
  match file, outcome with
  | none, _ => (none, .error "No such file or directory (os error 2)")
  | some content, .done => (some (setLen content len), .ok ())
  | some content, .failed cut error =>
    (some (if cut then setLen content len else content), .error error)

/-- Write the newline that the last line of a file lacks. -/
def terminateLine (file : File) (outcome : TerminateOutcome) : File × Except String Unit :=
  match file, outcome with
  | none, _ => (none, .error "No such file or directory (os error 2)")
  | some content, .done => (some (content ++ [10]), .ok ())
  | some content, .failed written error =>
    (some (if written then content ++ [10] else content), .error error)

end File

/-- `u8::is_ascii_whitespace` -/
def isAsciiWhitespace (byte : UInt8) : Bool :=
  byte = 0x20 || byte = 9 || byte = 10 || byte = 12 || byte = 13

/-- The entries read so far, the offset of the next line and the number of the last one,
and where the line of the last entry starts. -/
structure LoadState where
  entries : List JournalEntry
  offset : ℕ
  lineNumber : ℕ
  lastLineStart : Option ℕ

namespace LoadState

/-- Before the first line. -/
def start : LoadState := ⟨[], 0, 0, none⟩

/-- Take in an entry whose line starts at an offset. -/
def accept (state : LoadState) (lineStart : ℕ) (entry : JournalEntry) :
    Except JournalError LoadState :=
  if state.entries.length ≥ maxJournalEntries then
    .error (.unsafeRestore maxJournalEntries "too many journal entries")
  else
    match validateSequence state.entries entry with
    | .error error => .error error
    | .ok () =>
      .ok { state with entries := state.entries ++ [entry], lastLineStart := some lineStart }

/-- Read one complete line. -/
def loadLine (crates : Crates) (state : LoadState) (line : List UInt8) :
    Except JournalError LoadState :=
  let next : LoadState := { state with
    offset := state.offset + line.length + 1
    lineNumber := state.lineNumber + 1 }
  if line.all isAsciiWhitespace then .ok next
  else
    match crates.parseEntry line with
    | .error error => .error (.parse next.lineNumber error)
    | .ok entry => next.accept state.offset entry

/-- Read the complete lines. -/
def loadLines (crates : Crates) : LoadState → List (List UInt8) → Except JournalError LoadState
  | state, [] => .ok state
  | state, line :: lines =>
    match state.loadLine crates line with
    | .error error => .error error
    | .ok state => state.loadLines crates lines

/-- The journal of what was read, with the length of its file. -/
def journal (state : LoadState) (bytes : ℕ) : Journal :=
  ⟨state.entries, true, bytes, state.lastLineStart⟩

/-- Settle what stands after the last complete line. -/
def loadTail (crates : Crates) (file : File) (io : LoadIo) (state : LoadState)
    (tail : List UInt8) : File × Except JournalError Journal :=
  let dropTail : File × Except JournalError Journal :=
    match file.truncateTail state.offset io.truncate with
    | (file, .error error) => (file, .error (.io error))
    | (file, .ok ()) => (file, .ok (state.journal state.offset))
  if tail = [] then (file, .ok (state.journal file.content.length))
  else if tail.all isAsciiWhitespace then dropTail
  else
    match crates.parseEntry tail with
    | .error _ => dropTail
    | .ok entry =>
      match state.accept state.offset entry with
      | .error error => (file, .error error)
      | .ok state =>
        match file.terminateLine io.terminate with
        | (file', .error error) => (file', .error (.io error))
        | (file', .ok ()) => (file', .ok (state.journal (file.content.length + 1)))

end LoadState

namespace Journal

/-- Load a journal file, with the file as it is afterwards. -/
def load (crates : Crates) (file : File) (io : LoadIo) : File × Except JournalError Journal :=
  match io.read with
  | some (.invalidData error) => (file, .error (.unsafeRestore maxJournalBytes error))
  | some (.other error) => (file, .error (.io error))
  | none =>
    if file.content.length > maxJournalBytes then
      (file, .error (.unsafeRestore maxJournalBytes s!"journal exceeds {maxJournalBytes} bytes"))
    else
      match LoadState.start.loadLines crates (splitRecords 10 file.content).1 with
      | .error error => (file, .error error)
      | .ok state => state.loadTail crates file io (splitRecords 10 file.content).2

/-- Record an entry in a journal and its file. -/
def recordTo (crates : Crates) (file : File) (journal : Journal) (entry : JournalEntry)
    (outcome : AppendOutcome) : File × Journal × Except JournalError Unit :=
  match journal.lineToAppend crates entry with
  | .error error => (file, journal, .error error)
  | .ok line =>
    if journal.fileBacked then
      match file.appendLine line outcome with
      | (file, .error error) => (file, journal, .error (.io error))
      | (file, .ok ()) => (file, journal.push entry line, .ok ())
    else (file, journal.push entry line, .ok ())

/-- Where the file is cut to give up the last entry: nowhere, unless that entry is a host
error whose message is in the failure. -/
def pruneTarget (journal : Journal) (failureDetail : String) : Except JournalError (Option ℕ) :=
  match journal.entries.getLast? with
  | none => .ok none
  | some last =>
    match (last.result.get hostErrorKey).bind Value.asStr with
    | none => .ok none
    | some message =>
      if message = "" ∨ ¬message.toList <:+: failureDetail.toList then .ok none
      else
        match journal.lastLineStart with
        | none => .error (.io "journal cannot locate the trailing entry's byte offset")
        | some newLen => .ok (some newLen)

/-- A journal without its last entry. -/
def pop (journal : Journal) (newLen : ℕ) : Journal :=
  ⟨journal.entries.dropLast, journal.fileBacked, newLen, none⟩

/-- Give up the last entry when it is the host error a run failed with. -/
def pruneTrailingHostError (file : File) (journal : Journal) (failureDetail : String)
    (outcome : TruncateOutcome) : File × Journal × Except JournalError Bool :=
  match journal.pruneTarget failureDetail with
  | .error error => (file, journal, .error error)
  | .ok none => (file, journal, .ok false)
  | .ok (some newLen) =>
    if journal.fileBacked then
      match file.truncateTail newLen outcome with
      | (file, .error error) => (file, journal, .error (.io error))
      | (file, .ok ()) => (file, journal.pop newLen, .ok true)
    else (file, journal.pop newLen, .ok true)

end Journal

end Ezer.Workflow
