import Ezer.Workflow.Host

/-!
# The journal of a workflow run

The journal keeps the result of every host call of a run under its sequence
number, together with a hash of the request. A resumed run takes the results
of the calls the journal covers from it. What a journal file holds is in the
module on journal files; here are the operations on the entries in memory.
-/

namespace Ezer.Workflow

/-- The most result-bearing host calls of one run. -/
def maxHostCalls : ℕ := 10000

/-- The most items of one parallel call. -/
def maxParallel : ℕ := 1024

/-- The most bytes a journal file may have. -/
def maxJournalBytes : ℕ := 64 * 1024 * 1024

/-- The most entries a journal may have. -/
def maxJournalEntries : ℕ := maxHostCalls

/-- The key of a journaled host error. -/
def hostErrorKey : String := "__xai_workflow_host_error"

/-- One journaled result. -/
structure JournalEntry where
  seq : ℕ
  kind : String
  reqHash : String
  result : Value
  atMs : ℕ

/-- What the model takes from the crates the engine is built on: how a JSON value and
a journal entry are printed and parsed, SHA-256, and the error of converting a value
for the script. -/
structure Crates where
  jsonText : Value → String
  sha256 : List UInt8 → List UInt8
  printEntry : JournalEntry → List UInt8
  parseEntry : List UInt8 → Except String JournalEntry
  toDynamicError : Value → Option String

/-- The errors of the journal. -/
inductive JournalError where
  | io (error : String)
  | parse (line : ℕ) (error : String)
  | unsafeRestore (limit : ℕ) (reason : String)
  | full (seq limit : ℕ)
  | sequence (index expected actual : ℕ)
  | divergence (seq : ℕ) (kind : String)

/-- The text of a journal error. -/
def JournalError.message : JournalError → String
  | io error => s!"journal io: {error}"
  | parse line error => s!"journal parse at line {line}: {error}"
  | unsafeRestore limit reason => s!"journal restore rejected (limit {limit}): {reason}"
  | full seq limit =>
    s!"journal full: appending seq {seq} would exceed the {limit}-byte cap " ++
      "that restore enforces, which would strand the run unresumable"
  | sequence index expected actual =>
    s!"journal is not dense at entry {index}: expected sequence {expected}, found {actual}"
  | divergence seq kind =>
    s!"replay divergence at seq {seq} ({kind}): the script issued a different call than the " ++
      "recorded run — the workflow script is nondeterministic or was edited mid-run"

/-- A journal, with the length of its file and where the last line of the file
starts. -/
structure Journal where
  entries : List JournalEntry
  fileBacked : Bool
  bytes : ℕ
  lastLineStart : Option ℕ

namespace Journal

/-- An empty journal. -/
def new (fileBacked : Bool) : Journal where
  entries := []
  fileBacked := fileBacked
  bytes := 0
  lastLineStart := none

/-- The number of agent calls in the journal. -/
def agentReservationCount (journal : Journal) : ℕ :=
  (journal.entries.filter fun entry => entry.kind = "spawn_agent").length

/-- Whether the journal has a result for a sequence number. -/
def covers (journal : Journal) (seq : ℕ) : Bool := seq < journal.entries.length

/-- The journaled result of a call, unless another call was journaled in its place. -/
def replay (journal : Journal) (seq : ℕ) (kind reqHash : String) :
    Except JournalError (Option Value) :=
  match journal.entries[seq]? with
  | none => .ok none
  | some entry =>
    if entry.seq ≠ seq ∨ entry.kind ≠ kind ∨ entry.reqHash ≠ reqHash then
      .error (.divergence seq kind)
    else .ok (some entry.result)

end Journal

/-- An entry must have the next sequence number. -/
def validateSequence (entries : List JournalEntry) (entry : JournalEntry) :
    Except JournalError Unit :=
  if entry.seq ≠ entries.length then
    .error (.sequence entries.length entries.length entry.seq)
  else .ok ()

namespace Journal

/-- The first part of recording, before the file is touched: the line to append to
the file. -/
def lineToAppend (crates : Crates) (journal : Journal) (entry : JournalEntry) :
    Except JournalError (List UInt8) :=
  match validateSequence journal.entries entry with
  | .error error => .error error
  | .ok () =>
    let line := crates.printEntry entry ++ [10]
    if journal.bytes + line.length > maxJournalBytes then
      .error (.full entry.seq maxJournalBytes)
    else .ok line

/-- The last part of recording, after the line was appended to the file. -/
def push (journal : Journal) (entry : JournalEntry) (line : List UInt8) : Journal where
  entries := journal.entries ++ [entry]
  fileBacked := journal.fileBacked
  bytes := journal.bytes + line.length
  lastLineStart := some journal.bytes

/-- Record an entry; `appendError` is what appending to the file fails with. -/
def record (crates : Crates) (journal : Journal) (entry : JournalEntry)
    (appendError : Option String) : Except JournalError Journal :=
  match journal.lineToAppend crates entry with
  | .error error => .error error
  | .ok line =>
    match journal.fileBacked, appendError with
    | true, some error => .error (.io error)
    | _, _ => .ok (journal.push entry line)

end Journal

/-- The hexadecimal digits of a byte. -/
def hexByte (byte : UInt8) : List Char :=
  [Nat.digitChar (byte.toNat / 16), Nat.digitChar (byte.toNat % 16)]

/-- The bytes of a string. -/
def utf8 (s : String) : List UInt8 := s.toList.flatMap String.utf8EncodeChar

/-- The hash of a request: its kind and its canonical payload. -/
def requestHash (crates : Crates) (kind : String) (payload : Value) : String :=
  let digest := crates.sha256
    (utf8 kind ++ [0] ++ utf8 (crates.jsonText (canonicalJson payload)))
  String.ofList ((digest.take 16).flatMap hexByte)

end Ezer.Workflow
