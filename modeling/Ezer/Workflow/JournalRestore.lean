import Ezer.Workflow.JournalLoad

/-!
# What a journal file restores

The calls on a file-backed journal are followed through failures and crashes,
with the entries that were recorded and the one whose append failed after some
bytes. As long as every append is made at the end of the file the journal knows
about, the file holds the recorded entries and a part of at most one more line,
and a load restores exactly them. An append after a failed one does not meet
this: its line is glued to the part of the line left behind.
-/

namespace Ezer.Workflow

/-- A journal file and the journal at work on it, if one is, together with the entries
that were recorded and not cut off again, and the entry of a failed append that left bytes
in the file. -/
structure JournalWorld where
  file : File
  handle : Option Journal
  recorded : List JournalEntry
  pending : Option JournalEntry

/-- The calls on a journal with how the file operations in them go; a crash is the end of
the journal at work. -/
inductive JournalOp where
  | record (entry : JournalEntry) (outcome : AppendOutcome)
  | prune (failureDetail : String) (outcome : TruncateOutcome)
  | reload (io : LoadIo)
  | crash

namespace JournalWorld

/-- A new journal, whose file is not there yet. -/
def start : JournalWorld := ⟨none, some (.new true), [], none⟩

/-- Record an entry in the journal at work. -/
def recordEntry (crates : Crates) (world : JournalWorld) (journal : Journal) (entry : JournalEntry)
    (outcome : AppendOutcome) : JournalWorld :=
  match journal.recordTo crates world.file entry outcome with
  | (file, journal, .ok ()) => ⟨file, some journal, world.recorded ++ [entry], none⟩
  | (file, journal, .error _) =>
    ⟨file, some journal, world.recorded,
      if file.content = world.file.content then world.pending else some entry⟩

/-- The state after a prune: what it has cut off the file is not recorded any more. -/
def afterPrune (world : JournalWorld) (file : File) (journal : Journal) : JournalWorld :=
  if file.content = world.file.content then { world with file := file, handle := some journal }
  else ⟨file, some journal, world.recorded.dropLast, none⟩

/-- Prune the journal at work. -/
def pruneEntry (world : JournalWorld) (journal : Journal) (failureDetail : String)
    (outcome : TruncateOutcome) : JournalWorld :=
  match journal.pruneTrailingHostError world.file failureDetail outcome with
  | (file, journal, _) => world.afterPrune file journal

/-- Give up the journal at work and load its file. -/
def reload (crates : Crates) (world : JournalWorld) (io : LoadIo) : JournalWorld :=
  match Journal.load crates world.file io with
  | (file, .error _) => { world with file := file, handle := none }
  | (file, .ok journal) =>
    if journal.entries.length ≤ world.recorded.length then
      ⟨file, some journal, world.recorded, none⟩
    else ⟨file, some journal, world.recorded ++ world.pending.toList, none⟩

/-- One call. -/
def step (crates : Crates) (world : JournalWorld) : JournalOp → JournalWorld
  | .record entry outcome =>
    match world.handle with
    | none => world
    | some journal => world.recordEntry crates journal entry outcome
  | .prune failureDetail outcome =>
    match world.handle with
    | none => world
    | some journal => world.pruneEntry journal failureDetail outcome
  | .reload io => world.reload crates io
  | .crash => { world with handle := none }

/-- The calls of a run, one after the other. -/
def run (crates : Crates) (ops : List JournalOp) : JournalWorld :=
  ops.foldl (step crates) start

end JournalWorld

/-- The journal read from a file restores what was recorded: the entries, and the entry of
a failed append whose text was written completely. -/
structure Restored (crates : Crates) (world : JournalWorld) (file : File) (journal : Journal) :
    Prop where
  entries : journal.entries = world.recorded ∨
    ∃ entry, world.pending = some entry ∧ journal.entries = world.recorded ++ [entry] ∧
      encodeEntries crates world.recorded ++ crates.printEntry entry <+: world.file.content
  dense : Dense journal.entries
  bytes : journal.bytes = file.content.length
  lastLineStart : ∀ entry, journal.entries.getLast? = some entry →
    ∃ lineStart, journal.lastLineStart = some lineStart ∧
      file.content.drop lineStart = crates.printEntry entry ++ [10]
  size : file.content.length ≤ maxJournalBytes

/-- The file can be loaded and restores what was recorded. -/
def Restores (crates : Crates) (world : JournalWorld) : Prop :=
  world.file.content.length ≤ maxJournalBytes ∧
    ∃ file journal, Journal.load crates world.file .sound = (file, .ok journal) ∧
      Restored crates world file journal

/-- A call is clean unless it records at another place than the end of the file, or records
an entry that a load refuses: one too many, or one whose text is not read back. -/
def JournalWorld.Clean (crates : Crates) (world : JournalWorld) : JournalOp → Prop
  | .record entry outcome =>
    ∀ journal line, world.handle = some journal → journal.lineToAppend crates entry = .ok line →
      (0 < outcome.written line → journal.bytes = world.file.content.length) ∧
        (line.length ≤ outcome.written line + 1 →
          journal.entries.length < maxJournalEntries ∧
            crates.parseEntry (crates.printEntry entry) = .ok entry)
  | _ => True

/-- The states of runs of clean calls. -/
inductive CleanRun (crates : Crates) : JournalWorld → Prop
  | start : CleanRun crates .start
  | step {world : JournalWorld} (op : JournalOp) (hrun : CleanRun crates world)
      (hclean : world.Clean crates op) : CleanRun crates (world.step crates op)

section

variable {crates : Crates} {entries : List JournalEntry} {entry : JournalEntry}
variable {pending : Option JournalEntry} {torn : List UInt8}

theorem lineToAppend_ok {journal : Journal} {line : List UInt8}
    (h : journal.lineToAppend crates entry = .ok line) :
    entry.seq = journal.entries.length ∧ line = crates.printEntry entry ++ [10] ∧
      journal.bytes + line.length ≤ maxJournalBytes := by
  rw [Journal.lineToAppend, validateSequence] at h
  split at h
  · cases h
  next hseq =>
    split at hseq
    · cases hseq
    next hnext =>
      dsimp only at h
      split at h
      · cases h
      next hfits =>
        cases h
        exact ⟨not_not.mp hnext, rfl, not_lt.mp hfits⟩

theorem pruneTarget_some {journal : Journal} {failureDetail : String} {newLen : ℕ}
    (h : journal.pruneTarget failureDetail = .ok (some newLen)) :
    (∃ last, journal.entries.getLast? = some last) ∧ journal.lastLineStart = some newLen := by
  rw [Journal.pruneTarget] at h
  split at h
  · cases h
  next last hlast =>
    refine ⟨⟨last, hlast⟩, ?_⟩
    split at h
    · cases h
    · split at h
      · cases h
      · split at h
        · cases h
        next hstart =>
          cases h
          exact hstart

/-- The journal at work knows the recorded entries; after a prune that failed when the file
was already cut it still has the entry that was cut off. -/
inductive AtWork (crates : Crates) (recorded : List JournalEntry) (torn : List UInt8)
    (journal : Journal) : Prop
  | exact (h : Exact crates journal recorded)
  | pruned (entry : JournalEntry) (htorn : torn = [])
      (h : Exact crates journal (recorded ++ [entry]))

/-- The file of a journal holds the recorded entries and what a failed append left of one
more line. -/
structure Consistent (crates : Crates) (world : JournalWorld) (torn : List UInt8) : Prop where
  content : world.file.content = encodeEntries crates world.recorded ++ torn
  tail : TornTail crates world.recorded world.pending torn
  readable : Readable crates world.recorded
  size : (encodeEntries crates world.recorded).length ≤ maxJournalBytes
  atWork : ∀ journal, world.handle = some journal → AtWork crates world.recorded torn journal

variable {world : JournalWorld} {journal : Journal}

theorem AtWork.fileBacked {recorded : List JournalEntry} (h : AtWork crates recorded torn journal) :
    journal.fileBacked = true := by
  cases h with
  | exact h => exact h.fileBacked
  | pruned _ _ h => exact h.fileBacked

/-- A journal that counts the bytes of its file knows exactly the recorded entries, and
nothing else is in the file. -/
theorem Consistent.exact_of_bytes (h : Consistent crates world torn)
    (hhandle : world.handle = some journal) (hbytes : journal.bytes = world.file.content.length) :
    Exact crates journal world.recorded ∧ torn = [] := by
  rw [h.content, List.length_append] at hbytes
  cases h.atWork journal hhandle with
  | exact hexact =>
    have hlength := hexact.bytes
    exact ⟨hexact, List.length_eq_zero_iff.mp (by omega)⟩
  | pruned entry htorn hexact =>
    have hlength := hexact.bytes
    rw [length_encodeEntries_concat] at hlength
    subst htorn
    rw [List.length_nil] at hbytes
    omega

theorem start_consistent : Consistent crates .start [] where
  content := rfl
  tail := .whole
  readable := readable_nil
  size := Nat.zero_le _
  atWork journal hhandle := by
    cases hhandle
    exact .exact ⟨rfl, rfl, .inl rfl, rfl⟩

theorem push_exact (h : Exact crates journal entries) :
    Exact crates (journal.push entry (crates.printEntry entry ++ [10])) (entries ++ [entry]) where
  fileBacked := h.fileBacked
  bytes := by
    rw [Journal.push, length_encodeEntries_concat, h.bytes, List.length_append,
      List.length_singleton, Nat.add_assoc]
  lastLineStart := by
    right
    rw [Journal.push, lastStart_concat, h.bytes]
  entries := by
    rw [Journal.push, h.entries]

theorem pop_exact (h : Exact crates journal (entries ++ [entry])) :
    Exact crates (journal.pop (encodeEntries crates entries).length) entries where
  fileBacked := h.fileBacked
  bytes := rfl
  lastLineStart := .inl rfl
  entries := by
    rw [Journal.pop, h.entries, List.dropLast_concat]

/-- What a record call does to the file and to what is recorded. -/
inductive RecordEffect (crates : Crates) (world : JournalWorld) (journal : Journal)
    (entry : JournalEntry) (outcome : AppendOutcome) : JournalWorld → Prop
  | kept (file : File) (hcontent : file.content = world.file.content) :
      RecordEffect crates world journal entry outcome
        { world with file := file, handle := some journal }
  | done {line : List UInt8} (hline : journal.lineToAppend crates entry = .ok line)
      (hwritten : outcome.written line = line.length) :
      RecordEffect crates world journal entry outcome
        ⟨some (world.file.content ++ line), some (journal.push entry line),
          world.recorded ++ [entry], none⟩
  | cut {line part : List UInt8} (hline : journal.lineToAppend crates entry = .ok line)
      (hpart : part <+: line) (hne : part ≠ []) (hwritten : outcome.written line = part.length) :
      RecordEffect crates world journal entry outcome
        ⟨some (world.file.content ++ part), some journal, world.recorded, some entry⟩

theorem recordEntry_effect (hbacked : journal.fileBacked = true) (outcome : AppendOutcome) :
    RecordEffect crates world journal entry outcome
      (world.recordEntry crates journal entry outcome) := by
  rw [JournalWorld.recordEntry, Journal.recordTo]
  cases hline : journal.lineToAppend crates entry with
  | error error =>
    dsimp only
    rw [if_pos rfl]
    exact .kept world.file rfl
  | ok line =>
    dsimp only
    rw [if_pos hbacked]
    cases outcome with
    | done => exact .done hline rfl
    | notOpened error =>
      dsimp only [File.appendLine]
      rw [if_pos rfl]
      exact .kept world.file rfl
    | cut written error =>
      dsimp only [File.appendLine]
      by_cases hempty : line.take written = []
      · rw [hempty, List.append_nil, File.content_some, if_pos rfl]
        exact .kept (some world.file.content) rfl
      · have hnew : world.file.content ++ line.take written ≠ world.file.content := by
          simpa using hempty
        rw [File.content_some, if_neg hnew]
        exact .cut hline (List.take_prefix _ _) hempty (List.length_take).symm

/-- A line appended at the end of the file the journal knows about leaves the file
consistent, however much of it is written. -/
theorem recordEntry_consistent (h : Consistent crates world torn)
    (hhandle : world.handle = some journal) (outcome : AppendOutcome)
    (hclean : world.Clean crates (.record entry outcome)) :
    ∃ torn', Consistent crates (world.recordEntry crates journal entry outcome) torn' := by
  have hwork := h.atWork journal hhandle
  have heffect : RecordEffect crates world journal entry outcome
      (world.recordEntry crates journal entry outcome) :=
    recordEntry_effect hwork.fileBacked outcome
  generalize world.recordEntry crates journal entry outcome = world' at heffect ⊢
  cases heffect with
  | kept file hcontent =>
    refine ⟨torn, hcontent.trans h.content, h.tail, h.readable, h.size, ?_⟩
    intro journal' hjournal'
    cases hjournal'
    exact hwork
  | done hline hwritten =>
    obtain ⟨hbytes, hcomplete⟩ := hclean journal _ hhandle hline
    obtain ⟨hseq, rfl, hfits⟩ := lineToAppend_ok hline
    rw [hwritten] at hbytes hcomplete
    obtain ⟨hexact, rfl⟩ := h.exact_of_bytes hhandle (hbytes (by simp))
    have hentry := hcomplete (Nat.le_succ _)
    rw [hexact.entries] at hseq hentry
    have hcontent : world.file.content ++ (crates.printEntry entry ++ [10]) =
        encodeEntries crates (world.recorded ++ [entry]) := by
      rw [h.content, List.append_nil, encodeEntries_concat]
    rw [hexact.bytes, List.length_append, List.length_singleton, ← Nat.add_assoc,
      ← length_encodeEntries_concat] at hfits
    refine ⟨[], ?_, .whole, readable_concat h.readable hseq hentry.2 hentry.1, hfits, ?_⟩
    · rw [List.append_nil]
      exact hcontent
    · intro journal' hjournal'
      cases hjournal'
      exact .exact (push_exact hexact)
  | @cut _ part hline hpart hne hwritten =>
    obtain ⟨hbytes, hcomplete⟩ := hclean journal _ hhandle hline
    obtain ⟨hseq, rfl, hfits⟩ := lineToAppend_ok hline
    rw [hwritten] at hbytes hcomplete
    rw [List.length_append, List.length_singleton] at hfits hcomplete
    obtain ⟨hexact, rfl⟩ := h.exact_of_bytes hhandle
      (hbytes (List.length_pos_iff.mpr hne))
    rw [hexact.entries] at hseq hcomplete
    rw [hexact.bytes, ← Nat.add_assoc] at hfits
    refine ⟨part, ?_, .part rfl hpart hseq hfits fun hlong => hcomplete (by omega), h.readable,
      h.size, ?_⟩
    · change world.file.content ++ part = _
      rw [h.content, List.append_nil]
    · intro journal' hjournal'
      cases hjournal'
      exact .exact hexact

/-- Where a prune cuts the file: before the last recorded line, or at its end when that line
is already gone. -/
theorem AtWork.pruneTarget (h : AtWork crates world.recorded torn journal) {failureDetail : String}
    {newLen : ℕ} (htarget : journal.pruneTarget failureDetail = .ok (some newLen)) :
    (∃ front last, world.recorded = front ++ [last] ∧
      newLen = (encodeEntries crates front).length ∧ Exact crates journal (front ++ [last])) ∨
    ∃ last, torn = [] ∧ newLen = (encodeEntries crates world.recorded).length ∧
      Exact crates journal (world.recorded ++ [last]) := by
  obtain ⟨⟨last, hlast⟩, hstart⟩ := pruneTarget_some htarget
  cases h with
  | exact hexact =>
    rw [hexact.entries] at hlast
    obtain ⟨front, hfront⟩ := List.getLast?_eq_some_iff.mp hlast
    rw [hfront] at hexact
    have hlineStart := hexact.lastLineStart
    rw [hstart, lastStart_concat] at hlineStart
    left
    refine ⟨front, last, hfront, ?_, hexact⟩
    simpa using hlineStart
  | pruned entry htorn hexact =>
    have hlineStart := hexact.lastLineStart
    rw [hstart, lastStart_concat] at hlineStart
    right
    refine ⟨entry, htorn, ?_, hexact⟩
    simpa using hlineStart

theorem Consistent.afterPrune_kept (h : Consistent crates world torn) {file : File}
    (hfile : file.content = world.file.content)
    (hwork : AtWork crates world.recorded torn journal) :
    Consistent crates (world.afterPrune file journal) torn := by
  rw [JournalWorld.afterPrune, if_pos hfile]
  refine ⟨hfile.trans h.content, h.tail, h.readable, h.size, ?_⟩
  intro journal' hjournal'
  cases hjournal'
  exact hwork

theorem Consistent.afterPrune_cut (h : Consistent crates world torn) {file : File}
    {front : List JournalEntry} {last : JournalEntry} (hfront : world.recorded = front ++ [last])
    (hfile : file.content = encodeEntries crates front) (hwork : AtWork crates front [] journal) :
    Consistent crates (world.afterPrune file journal) [] := by
  have hreadable := h.readable
  have hsize := h.size
  have hcontent := h.content
  rw [hfront] at hreadable hsize hcontent
  rw [length_encodeEntries_concat] at hsize
  have hshorter : file.content.length < world.file.content.length := by
    rw [hcontent, hfile, List.length_append, length_encodeEntries_concat]
    omega
  have hchanged : file.content ≠ world.file.content := by
    intro hsame
    rw [hsame] at hshorter
    omega
  have hfits : (encodeEntries crates front).length ≤ maxJournalBytes := by omega
  rw [JournalWorld.afterPrune, if_neg hchanged, hfront, List.dropLast_concat]
  refine ⟨by rw [hfile, List.append_nil], .whole, hreadable.of_concat.1, hfits, ?_⟩
  intro journal' hjournal'
  cases hjournal'
  exact hwork

theorem pruneEntry_consistent (h : Consistent crates world torn)
    (hhandle : world.handle = some journal) (failureDetail : String) (outcome : TruncateOutcome) :
    ∃ torn', Consistent crates (world.pruneEntry journal failureDetail outcome) torn' := by
  have hwork := h.atWork journal hhandle
  rw [JournalWorld.pruneEntry, Journal.pruneTrailingHostError]
  cases htarget : journal.pruneTarget failureDetail with
  | error error => exact ⟨torn, h.afterPrune_kept rfl hwork⟩
  | ok target =>
    cases target with
    | none => exact ⟨torn, h.afterPrune_kept rfl hwork⟩
    | some newLen =>
      dsimp only
      rw [if_pos hwork.fileBacked]
      rcases hwork.pruneTarget htarget with ⟨front, last, hfront, rfl, hexact⟩ |
        ⟨last, rfl, rfl, hexact⟩
      · have hcontent := h.content
        rw [hfront, encodeEntries_concat, List.append_assoc] at hcontent
        rcases truncateTail_cases hcontent outcome with hok | ⟨-, file, error, herror, hfile⟩
        · rw [hok]
          exact ⟨[], h.afterPrune_cut hfront rfl (.exact (pop_exact hexact))⟩
        · rw [herror]
          rcases hfile with hfile | hfile
          · exact ⟨[], h.afterPrune_cut hfront hfile (.pruned last rfl hexact)⟩
          · exact ⟨torn, h.afterPrune_kept (hfile.trans hcontent.symm) hwork⟩
      · have hcontent := h.content
        rcases truncateTail_cases hcontent outcome with hok | ⟨-, file, error, herror, hfile⟩
        · rw [hok]
          rw [List.append_nil] at hcontent
          exact ⟨[], h.afterPrune_kept hcontent.symm (.exact (pop_exact hexact))⟩
        · rw [herror]
          rw [List.append_nil, or_self] at hfile
          rw [List.append_nil] at hcontent
          exact ⟨[], h.afterPrune_kept (hfile.trans hcontent.symm) hwork⟩

theorem reload_consistent (codec : crates.LineCodec) (h : Consistent crates world torn)
    (io : LoadIo) : ∃ torn', Consistent crates (world.reload crates io) torn' := by
  rw [JournalWorld.reload]
  rcases load_settles codec h.readable h.size h.tail h.content io with
    ⟨file, journal, hload, hloaded⟩ | ⟨-, file, error, torn', hload, hcontent, htail⟩
  · rw [hload]
    dsimp only
    have hsize := hloaded.size
    have hreadable := hloaded.readable
    have hexact := hloaded.exact
    have hcontent := hloaded.content
    rw [hcontent] at hsize
    rcases hloaded.entries with hentries | ⟨entry, hpending, hentries, -⟩
    · rw [hentries] at hsize hreadable hexact hcontent
      rw [if_pos (by rw [hentries])]
      refine ⟨[], by rw [hcontent, List.append_nil], .whole, hreadable, hsize, ?_⟩
      intro journal' hjournal'
      cases hjournal'
      exact .exact hexact
    · rw [hentries] at hsize hreadable hexact hcontent
      rw [if_neg (by rw [hentries]; simp), hpending]
      refine ⟨[], by rw [hcontent, List.append_nil]; rfl, .whole, hreadable, hsize, ?_⟩
      intro journal' hjournal'
      cases hjournal'
      exact .exact hexact
  · rw [hload]
    refine ⟨torn', hcontent, htail, h.readable, h.size, ?_⟩
    intro journal' hjournal'
    cases hjournal'

theorem step_consistent (codec : crates.LineCodec) (h : Consistent crates world torn)
    (op : JournalOp) (hclean : world.Clean crates op) :
    ∃ torn', Consistent crates (world.step crates op) torn' := by
  cases op with
  | record entry outcome =>
    rw [JournalWorld.step]
    cases hhandle : world.handle with
    | none => exact ⟨torn, h⟩
    | some journal => exact recordEntry_consistent h hhandle outcome hclean
  | prune failureDetail outcome =>
    rw [JournalWorld.step]
    cases hhandle : world.handle with
    | none => exact ⟨torn, h⟩
    | some journal => exact pruneEntry_consistent h hhandle failureDetail outcome
  | reload io => exact reload_consistent codec h io
  | crash =>
    refine ⟨torn, h.content, h.tail, h.readable, h.size, ?_⟩
    intro journal' hjournal'
    cases hjournal'

theorem cleanRun_consistent (codec : crates.LineCodec) (hrun : CleanRun crates world) :
    ∃ torn, Consistent crates world torn := by
  induction hrun with
  | start => exact ⟨[], start_consistent⟩
  | step op _ hclean ih =>
    obtain ⟨torn, h⟩ := ih
    exact step_consistent codec h op hclean

/-- A consistent file restores what was recorded. -/
theorem Consistent.restores (codec : crates.LineCodec) (h : Consistent crates world torn) :
    Restores crates world := by
  refine ⟨?_, ?_⟩
  · rw [h.content]
    exact h.tail.size h.size
  rcases load_settles codec h.readable h.size h.tail h.content .sound with
    ⟨file, journal, hload, hloaded⟩ | ⟨hne, -⟩
  · refine ⟨file, journal, hload, hloaded.entries, hloaded.readable.dense, hloaded.bytes, ?_,
      hloaded.size⟩
    intro entry hentry
    obtain ⟨front, hfront⟩ := List.getLast?_eq_some_iff.mp hentry
    have hstart := hloaded.lastLineStart
    rw [hfront, lastStart_concat] at hstart
    refine ⟨_, hstart, ?_⟩
    rw [hloaded.content, hfront, encodeEntries_concat, List.drop_left]
  · exact absurd rfl hne

/-- In a run of clean calls the journal file can always be loaded and restores exactly what
was recorded, whatever writes fail and wherever the process stops. -/
theorem cleanRun_restores (codec : crates.LineCodec) (hrun : CleanRun crates world) :
    Restores crates world := by
  obtain ⟨torn, h⟩ := cleanRun_consistent codec hrun
  exact h.restores codec

theorem cleanRun_concat {ops : List JournalOp} {op : JournalOp}
    (hrun : CleanRun crates (.run crates ops))
    (hclean : (JournalWorld.run crates ops).Clean crates op) :
    CleanRun crates (.run crates (ops ++ [op])) := by
  rw [JournalWorld.run, List.foldl_concat]
  exact .step op hrun hclean

theorem clean_record {outcome : AppendOutcome}
    (hhandle : (world.handle.all fun journal =>
      decide (journal.bytes = world.file.content.length ∧
        journal.entries.length < maxJournalEntries)) = true)
    (hparses : crates.parseEntry (crates.printEntry entry) = .ok entry) :
    world.Clean crates (.record entry outcome) := by
  intro journal line hjournal _
  rw [hjournal, Option.all_some, decide_eq_true_eq] at hhandle
  exact ⟨fun _ => hhandle.1, fun _ => ⟨hhandle.2, hparses⟩⟩

end

/-- The text of a log entry without a result. -/
def logText (entry : JournalEntry) : List UInt8 :=
  utf8 ("\x7b\"seq\":" ++ toString entry.seq ++ ",\"kind\":\"log\",\"req_hash\":\"x\"," ++
    "\"result\":null,\"at_ms\":1\x7d")

/-- A log entry without a result. -/
def logEntry (seq : ℕ) : JournalEntry := ⟨seq, "log", "x", .null, 1⟩

/-- The crates on the first two log entries; every other text is refused. -/
def logCrates : Crates where
  jsonText _ := "null"
  sha256 _ := []
  printEntry entry := logText (logEntry (min entry.seq 1))
  parseEntry text :=
    if text = logText (logEntry 0) then .ok (logEntry 0)
    else if text = logText (logEntry 1) then .ok (logEntry 1)
    else .error "EOF while parsing a value at line 1 column 0"
  toDynamicError _ := none

theorem logCrates_lineCodec : logCrates.LineCodec where
  oneLine entry := by
    have hcases : min entry.seq 1 = 0 ∨ min entry.seq 1 = 1 := by omega
    rcases hcases with h | h
    all_goals
      simp only [logCrates, h]
      decide +kernel
  notBlank entry := by
    have hcases : min entry.seq 1 = 0 ∨ min entry.seq 1 = 1 := by omega
    rcases hcases with h | h
    all_goals
      simp only [logCrates, h]
      decide +kernel
  noPart entry part hpart hne := by
    have hlength : (logText (logEntry 0)).length = (logText (logEntry 1)).length := by
      decide +kernel
    have hcases : min entry.seq 1 = 0 ∨ min entry.seq 1 = 1 := by omega
    have hshort : part.length < (logText (logEntry 0)).length := by
      have hlt : part.length < (logCrates.printEntry entry).length :=
        lt_of_le_of_ne hpart.length_le fun h => hne (hpart.eq_of_length h)
      rcases hcases with h | h
      all_goals
        simp only [logCrates, h] at hlt
        omega
    refine ⟨"EOF while parsing a value at line 1 column 0", ?_⟩
    have hfirst : part ≠ logText (logEntry 0) := by
      rintro rfl
      omega
    have hsecond : part ≠ logText (logEntry 1) := by
      rintro rfl
      omega
    change (if part = _ then _ else if part = _ then _ else _) = _
    rw [if_neg hfirst, if_neg hsecond]

theorem logCrates_parses {seq : ℕ} (hseq : seq = 0 ∨ seq = 1) :
    logCrates.parseEntry (logCrates.printEntry (logEntry seq)) = .ok (logEntry seq) := by
  have hprint : logCrates.printEntry (logEntry seq) = logText (logEntry seq) := by
    rcases hseq with rfl | rfl
    all_goals rfl
  rw [hprint]
  rcases hseq with rfl | rfl
  · simp only [logCrates, if_true]
  · have hne : logText (logEntry 1) ≠ logText (logEntry 0) := by
      decide +kernel
    simp only [logCrates, if_neg hne, if_true]

/-- A run in which the second append is cut and the process stops, and the loaded journal
records the entry again. -/
theorem interrupted_restores : Restores logCrates (JournalWorld.run logCrates
    [.record (logEntry 0) .done, .record (logEntry 1) (.cut 12 "disk full"), .crash,
      .reload .sound, .record (logEntry 1) .done]) := by
  have hstart : CleanRun logCrates (.run logCrates []) := .start
  have hfirst : CleanRun logCrates (.run logCrates [.record (logEntry 0) .done]) :=
    cleanRun_concat hstart (clean_record (by decide +kernel) (logCrates_parses (.inl rfl)))
  have hcut : CleanRun logCrates (.run logCrates
      [.record (logEntry 0) .done, .record (logEntry 1) (.cut 12 "disk full")]) :=
    cleanRun_concat hfirst (clean_record (by decide +kernel) (logCrates_parses (.inr rfl)))
  have hloaded : CleanRun logCrates (.run logCrates
      [.record (logEntry 0) .done, .record (logEntry 1) (.cut 12 "disk full"), .crash,
        .reload .sound]) := by
    have hcrash : CleanRun logCrates (.run logCrates
        [.record (logEntry 0) .done, .record (logEntry 1) (.cut 12 "disk full"), .crash]) :=
      cleanRun_concat hcut trivial
    exact cleanRun_concat hcrash trivial
  exact cleanRun_restores logCrates_lineCodec
    (cleanRun_concat hloaded (clean_record (by decide +kernel) (logCrates_parses (.inr rfl))))

/-- An append that is cut and then made again on the same journal leaves a file that cannot
be loaded. -/
theorem repeated_append_not_restores : logCrates.LineCodec ∧ ¬Restores logCrates
    (JournalWorld.run logCrates
      [.record (logEntry 0) (.cut 12 "disk full"), .record (logEntry 0) .done]) := by
  refine ⟨logCrates_lineCodec, ?_⟩
  rintro ⟨-, file, journal, hload, -⟩
  have hfails : (Journal.load logCrates (JournalWorld.run logCrates
      [.record (logEntry 0) (.cut 12 "disk full"),
        .record (logEntry 0) .done]).file .sound).2.toBool = false := by
    decide +kernel
  rw [hload] at hfails
  cases hfails

end Ezer.Workflow
