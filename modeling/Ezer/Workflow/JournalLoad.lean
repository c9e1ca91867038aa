import Ezer.Workflow.JournalFile

/-!
# Loading a journal file

A file that holds the lines of entries, and a part of the line of one more, is
loaded as these entries, with the one more when its text is complete. The file
is then the lines of the entries that were loaded.
-/

namespace Ezer.Workflow

open Ezer.Lib

/-- The bytes of a file that holds some entries. -/
def encodeEntries (crates : Crates) (entries : List JournalEntry) : List UInt8 :=
  encodeRecords 10 (entries.map crates.printEntry)

/-- The entries have the sequence numbers from zero on. -/
def Dense (entries : List JournalEntry) : Prop :=
  ∀ (i : ℕ) (entry : JournalEntry), entries[i]? = some entry → entry.seq = i

/-- What the journal relies on from the JSON printer and parser: an entry is printed on one
line that is not blank, and no part of its text is an entry. -/
structure Crates.LineCodec (crates : Crates) : Prop where
  oneLine : ∀ entry, 10 ∉ crates.printEntry entry
  notBlank : ∀ entry, (crates.printEntry entry).all isAsciiWhitespace = false
  noPart : ∀ entry part, part <+: crates.printEntry entry → part ≠ crates.printEntry entry →
    ∃ error, crates.parseEntry part = .error error

/-- Entries that can be written and read back in this order. -/
structure Readable (crates : Crates) (entries : List JournalEntry) : Prop where
  dense : Dense entries
  parses : ∀ entry ∈ entries, crates.parseEntry (crates.printEntry entry) = .ok entry
  count : entries.length ≤ maxJournalEntries

/-- Where the line of the last entry starts. -/
def lastStart (crates : Crates) (entries : List JournalEntry) : Option ℕ :=
  if entries = [] then none else some (encodeEntries crates entries.dropLast).length

section

variable {crates : Crates} {entries : List JournalEntry} {entry : JournalEntry}

theorem encodeEntries_concat : encodeEntries crates (entries ++ [entry]) =
    encodeEntries crates entries ++ (crates.printEntry entry ++ [10]) := by
  rw [encodeEntries, List.map_append, List.map_singleton, encodeRecords_concat]
  rfl

theorem length_encodeEntries_concat : (encodeEntries crates (entries ++ [entry])).length =
    (encodeEntries crates entries).length + (crates.printEntry entry).length + 1 := by
  rw [encodeEntries_concat]
  simp only [List.length_append, List.length_singleton]
  omega

@[simp] theorem lastStart_concat :
    lastStart crates (entries ++ [entry]) = some (encodeEntries crates entries).length := by
  simp [lastStart]

theorem readable_nil : Readable crates [] :=
  ⟨fun _ _ h => by simp at h, fun _ h => by simp at h, Nat.zero_le _⟩

theorem readable_concat (hentries : Readable crates entries) (hseq : entry.seq = entries.length)
    (hparses : crates.parseEntry (crates.printEntry entry) = .ok entry)
    (hcount : entries.length < maxJournalEntries) : Readable crates (entries ++ [entry]) where
  dense i e he := by
    rw [List.getElem?_append] at he
    split at he
    · exact hentries.dense i e he
    · rw [List.getElem?_singleton] at he
      split at he
      · cases he
        omega
      · cases he
  parses e he := by
    rw [List.mem_append, List.mem_singleton] at he
    rcases he with he | rfl
    · exact hentries.parses e he
    · exact hparses
  count := by
    rw [List.length_append, List.length_singleton]
    exact hcount

theorem Readable.of_concat (h : Readable crates (entries ++ [entry])) :
    Readable crates entries ∧ entry.seq = entries.length ∧
      crates.parseEntry (crates.printEntry entry) = .ok entry ∧
      entries.length < maxJournalEntries := by
  have hcount := h.count
  rw [List.length_append, List.length_singleton] at hcount
  refine ⟨⟨fun i e he => ?_, fun e he => ?_, by omega⟩, ?_, ?_, by omega⟩
  · apply h.dense i e
    rw [List.getElem?_append_left (List.getElem?_eq_some_iff.mp he).1]
    exact he
  · exact h.parses e (List.mem_append_left _ he)
  · exact h.dense _ _ (by simp)
  · exact h.parses _ (by simp)

/-- What is read from the lines of some entries. -/
def loadedState (crates : Crates) (entries : List JournalEntry) : LoadState :=
  ⟨entries, (encodeEntries crates entries).length, entries.length, lastStart crates entries⟩

theorem loadLines_concat (state : LoadState) (lines : List (List UInt8)) (line : List UInt8) :
    state.loadLines crates (lines ++ [line]) =
      match state.loadLines crates lines with
      | .error error => .error error
      | .ok state => state.loadLine crates line := by
  induction lines generalizing state with
  | nil =>
    simp only [List.nil_append, LoadState.loadLines]
    cases state.loadLine crates line <;> rfl
  | cons first lines ih =>
    simp only [List.cons_append, LoadState.loadLines]
    cases state.loadLine crates first with
    | error error => rfl
    | ok state => exact ih state

theorem accept_next (state : LoadState) (lineStart : ℕ) (hseq : entry.seq = state.entries.length)
    (hcount : state.entries.length < maxJournalEntries) :
    state.accept lineStart entry = .ok { state with
      entries := state.entries ++ [entry]
      lastLineStart := some lineStart } := by
  rw [LoadState.accept, if_neg (by omega), validateSequence, if_neg (by omega)]

variable (codec : crates.LineCodec)
include codec

theorem loadLine_print (hentry : Readable crates (entries ++ [entry])) :
    (loadedState crates entries).loadLine crates (crates.printEntry entry) =
      .ok (loadedState crates (entries ++ [entry])) := by
  obtain ⟨-, hseq, hparses, hcount⟩ := hentry.of_concat
  rw [LoadState.loadLine, codec.notBlank entry, hparses]
  dsimp only
  rw [if_neg Bool.false_ne_true, accept_next _ _ hseq hcount]
  simp only [loadedState, lastStart_concat, length_encodeEntries_concat, List.length_append,
    List.length_singleton]

theorem loadLines_print (hentries : Readable crates entries) :
    LoadState.start.loadLines crates (entries.map crates.printEntry) =
      .ok (loadedState crates entries) := by
  induction entries using List.reverseRecOn with
  | nil => rfl
  | append_singleton entries entry ih =>
    rw [List.map_append, List.map_singleton, loadLines_concat, ih hentries.of_concat.1]
    exact loadLine_print codec hentries

theorem splitRecords_encodeEntries (tail : List UInt8) :
    splitRecords 10 (encodeEntries crates entries ++ tail) =
      (entries.map crates.printEntry ++ (splitRecords 10 tail).1, (splitRecords 10 tail).2) := by
  apply splitRecords_encode_append
  intro record hrecord
  obtain ⟨entry, -, rfl⟩ := List.mem_map.mp hrecord
  exact codec.oneLine entry

/-- A file of entries with a tail that is no line is loaded by settling the tail. -/
theorem load_tail {file : File} {io : LoadIo} {tail : List UInt8} (hread : io.read = none)
    (hcontent : file.content = encodeEntries crates entries ++ tail) (htail : 10 ∉ tail)
    (hsize : file.content.length ≤ maxJournalBytes) (hentries : Readable crates entries) :
    Journal.load crates file io = (loadedState crates entries).loadTail crates file io tail := by
  rw [Journal.load, hread]
  dsimp only
  rw [if_neg (by omega), hcontent, splitRecords_encodeEntries codec,
    splitRecords_of_not_mem htail]
  dsimp only
  rw [List.append_nil, loadLines_print codec hentries]

omit codec

/-- The journal of some entries, at work on the file of these entries. -/
structure Exact (crates : Crates) (journal : Journal) (entries : List JournalEntry) : Prop where
  fileBacked : journal.fileBacked = true
  bytes : journal.bytes = (encodeEntries crates entries).length
  lastLineStart : journal.lastLineStart = none ∨
    journal.lastLineStart = lastStart crates entries
  entries : journal.entries = entries

/-- What can stand after the recorded entries: nothing, or a part of the line of the entry
whose append failed. -/
inductive TornTail (crates : Crates) (entries : List JournalEntry) (pending : Option JournalEntry) :
    List UInt8 → Prop
  | whole : TornTail crates entries pending []
  | part {entry : JournalEntry} {torn : List UInt8} (hpending : pending = some entry)
      (hpart : torn <+: crates.printEntry entry ++ [10]) (hseq : entry.seq = entries.length)
      (hsize : (encodeEntries crates entries).length + (crates.printEntry entry).length + 1 ≤
        maxJournalBytes)
      (hcomplete : (crates.printEntry entry).length ≤ torn.length →
        entries.length < maxJournalEntries ∧
          crates.parseEntry (crates.printEntry entry) = .ok entry) :
      TornTail crates entries pending torn

/-- What a load makes of a file. -/
structure LoadedFrom (crates : Crates) (entries : List JournalEntry) (pending : Option JournalEntry)
    (content : List UInt8) (file : File) (journal : Journal) : Prop where
  entries : journal.entries = entries ∨
    ∃ entry, pending = some entry ∧ journal.entries = entries ++ [entry] ∧
      encodeEntries crates entries ++ crates.printEntry entry <+: content
  content : file.content = encodeEntries crates journal.entries
  fileBacked : journal.fileBacked = true
  bytes : journal.bytes = file.content.length
  lastLineStart : journal.lastLineStart = lastStart crates journal.entries
  readable : Readable crates journal.entries
  size : file.content.length ≤ maxJournalBytes

section

variable {pending : Option JournalEntry} {torn : List UInt8} {file : File}

theorem LoadedFrom.exact {content : List UInt8} {journal : Journal}
    (h : LoadedFrom crates entries pending content file journal) :
    Exact crates journal journal.entries where
  fileBacked := h.fileBacked
  bytes := by rw [h.bytes, h.content]
  lastLineStart := .inr h.lastLineStart
  entries := rfl

theorem TornTail.size (h : TornTail crates entries pending torn)
    (hsize : (encodeEntries crates entries).length ≤ maxJournalBytes) :
    (encodeEntries crates entries ++ torn).length ≤ maxJournalBytes := by
  rw [List.length_append]
  cases h with
  | whole => exact hsize
  | part _ hpart _ hsize _ =>
    have hlength := hpart.length_le
    rw [List.length_append, List.length_singleton] at hlength
    omega

theorem content_eq_some (h : file.content ≠ []) : ∃ content, file = some content := by
  cases file with
  | none => exact absurd rfl h
  | some content => exact ⟨content, rfl⟩

theorem setLen_append (kept tail : List UInt8) : File.setLen (kept ++ tail) kept.length = kept := by
  rw [File.setLen, List.take_left, List.length_append, Nat.sub_eq_zero_of_le (Nat.le_add_right _ _),
    List.replicate_zero, List.append_nil]

/-- Cutting the tail off a file leaves the file without it, or as it was when it fails. -/
theorem truncateTail_cases {kept tail : List UInt8} (hcontent : file.content = kept ++ tail)
    (outcome : TruncateOutcome) :
    file.truncateTail kept.length outcome = (some kept, .ok ()) ∨
      (outcome = .done → file.content = []) ∧ ∃ (file' : File) (error : String),
        file.truncateTail kept.length outcome = (file', .error error) ∧
          (file'.content = kept ∨ file'.content = kept ++ tail) := by
  cases file with
  | none => exact .inr ⟨fun _ => rfl, none, _, rfl, .inr hcontent⟩
  | some content =>
    change content = kept ++ tail at hcontent
    subst hcontent
    cases outcome with
    | done =>
      left
      rw [File.truncateTail, setLen_append]
    | failed cut error =>
      right
      refine ⟨by simp, _, error, rfl, ?_⟩
      rw [setLen_append]
      cases cut with
      | true => exact .inl rfl
      | false => exact .inr rfl

theorem terminateLine_cases {content : List UInt8} (hcontent : file.content = content)
    (hne : content ≠ []) (outcome : TerminateOutcome) :
    file.terminateLine outcome = (some (content ++ [10]), .ok ()) ∨
      outcome ≠ .done ∧ ∃ content' error,
        file.terminateLine outcome = (some content', .error error) ∧
          (content' = content ++ [10] ∨ content' = content) := by
  subst hcontent
  obtain ⟨content, rfl⟩ := content_eq_some hne
  cases outcome with
  | done => exact .inl rfl
  | failed written error =>
    right
    refine ⟨by simp, _, error, rfl, ?_⟩
    cases written with
    | true => exact .inl rfl
    | false => exact .inr rfl

theorem printEntry_ne_nil (codec : crates.LineCodec) (entry : JournalEntry) :
    crates.printEntry entry ≠ [] := by
  intro h
  have hblank := codec.notBlank entry
  rw [h] at hblank
  cases hblank

theorem load_whole (codec : crates.LineCodec) {io : LoadIo} (hread : io.read = none)
    (hcontent : file.content = encodeEntries crates entries)
    (hsize : file.content.length ≤ maxJournalBytes) (hentries : Readable crates entries) :
    Journal.load crates file io =
      (file, .ok ((loadedState crates entries).journal file.content.length)) := by
  have hcontent' : file.content = encodeEntries crates entries ++ [] := by
    rw [hcontent, List.append_nil]
  have hload := load_tail codec hread hcontent' List.not_mem_nil hsize hentries
  rw [hload, LoadState.loadTail, if_pos rfl]

theorem loadedFrom_loadedState {content : List UInt8} {loaded : List JournalEntry} {bytes : ℕ}
    (hentries : loaded = entries ∨ ∃ entry, pending = some entry ∧ loaded = entries ++ [entry] ∧
      encodeEntries crates entries ++ crates.printEntry entry <+: content)
    (hcontent : file.content = encodeEntries crates loaded) (hbytes : bytes = file.content.length)
    (hreadable : Readable crates loaded) (hsize : file.content.length ≤ maxJournalBytes) :
    LoadedFrom crates entries pending content file ((loadedState crates loaded).journal bytes) where
  entries := hentries
  content := hcontent
  fileBacked := rfl
  bytes := hbytes
  lastLineStart := rfl
  readable := hreadable
  size := hsize

theorem loadTail_dropped (codec : crates.LineCodec) (io : LoadIo) (hne : torn ≠ [])
    (hpart : torn <+: crates.printEntry entry) (hproper : torn ≠ crates.printEntry entry) :
    (loadedState crates entries).loadTail crates file io torn =
      match file.truncateTail (encodeEntries crates entries).length io.truncate with
      | (file, .error error) => (file, .error (.io error))
      | (file, .ok ()) =>
        (file, .ok ((loadedState crates entries).journal (encodeEntries crates entries).length)) := by
  rw [LoadState.loadTail, if_neg hne]
  split
  · rfl
  · obtain ⟨error, herror⟩ := codec.noPart entry torn hpart hproper
    rw [herror]
    rfl

theorem loadTail_terminated (codec : crates.LineCodec) (io : LoadIo)
    (hreadable : Readable crates (entries ++ [entry])) :
    (loadedState crates entries).loadTail crates file io (crates.printEntry entry) =
      match file.terminateLine io.terminate with
      | (file', .error error) => (file', .error (.io error))
      | (file', .ok ()) =>
        (file', .ok ((loadedState crates (entries ++ [entry])).journal
          (file.content.length + 1))) := by
  obtain ⟨-, hseq, hparses, hcount⟩ := hreadable.of_concat
  rw [LoadState.loadTail, if_neg (printEntry_ne_nil codec entry), codec.notBlank entry,
    if_neg Bool.false_ne_true, hparses]
  dsimp only
  rw [accept_next _ _ hseq hcount]
  dsimp only
  have hjournal (bytes : ℕ) : (loadedState crates (entries ++ [entry])).journal bytes =
      ⟨entries ++ [entry], true, bytes, some (encodeEntries crates entries).length⟩ := by
    rw [LoadState.journal, loadedState, lastStart_concat]
  simp only [hjournal]
  rfl

/-- A load restores the entries, with the one whose text is complete, unless a file
operation fails; then the entries are still there. -/
def Settles (crates : Crates) (entries : List JournalEntry) (pending : Option JournalEntry)
    (file : File) (io : LoadIo) : Prop :=
  (∃ file' journal, Journal.load crates file io = (file', .ok journal) ∧
    LoadedFrom crates entries pending file.content file' journal) ∨
  io ≠ .sound ∧ ∃ file' error torn, Journal.load crates file io = (file', .error error) ∧
    file'.content = encodeEntries crates entries ++ torn ∧ TornTail crates entries pending torn

theorem settles_unread {io : LoadIo} {error : ReadError} (hread : io.read = some error)
    (htail : TornTail crates entries pending torn)
    (hcontent : file.content = encodeEntries crates entries ++ torn) :
    Settles crates entries pending file io := by
  have hne : io ≠ .sound := by
    rintro rfl
    cases hread
  right
  refine ⟨hne, ?_⟩
  cases error with
  | invalidData | other => exact ⟨file, _, torn, by rw [Journal.load, hread], hcontent, htail⟩

theorem settles_whole (codec : crates.LineCodec) {io : LoadIo} {loaded : List JournalEntry}
    (hread : io.read = none) (hreadable : Readable crates loaded)
    (hsize : file.content.length ≤ maxJournalBytes)
    (hcontent : file.content = encodeEntries crates loaded)
    (hentries : loaded = entries ∨ ∃ entry, pending = some entry ∧ loaded = entries ++ [entry] ∧
      encodeEntries crates entries ++ crates.printEntry entry <+: file.content) :
    Settles crates entries pending file io :=
  .inl ⟨file, _, load_whole codec hread hcontent hsize hreadable,
    loadedFrom_loadedState hentries hcontent rfl hreadable hsize⟩

theorem settles_part (codec : crates.LineCodec) {io : LoadIo} (hread : io.read = none)
    (hreadable : Readable crates entries) (hsize : file.content.length ≤ maxJournalBytes)
    (htail : TornTail crates entries pending torn)
    (hcontent : file.content = encodeEntries crates entries ++ torn) (htorn : torn ≠ [])
    (hpart : torn <+: crates.printEntry entry) (hproper : torn ≠ crates.printEntry entry) :
    Settles crates entries pending file io := by
  have hstop : 10 ∉ torn := fun h => codec.oneLine entry (hpart.subset h)
  have hload := load_tail codec hread hcontent hstop hsize hreadable
  rw [loadTail_dropped codec io htorn hpart hproper] at hload
  have hne : file.content ≠ [] := by
    rw [hcontent]
    exact List.append_ne_nil_of_right_ne_nil _ htorn
  rcases truncateTail_cases hcontent io.truncate with hok | ⟨hfailed, file', error, herror, hcases⟩
  · left
    rw [hok] at hload
    rw [hcontent, List.length_append] at hsize
    have hfits : (encodeEntries crates entries).length ≤ maxJournalBytes := by omega
    exact ⟨_, _, hload, loadedFrom_loadedState (.inl rfl) rfl rfl hreadable hfits⟩
  · right
    rw [herror] at hload
    refine ⟨fun h => hne (hfailed (by rw [h]; rfl)), ?_⟩
    rcases hcases with hkept | hwhole
    · exact ⟨file', _, [], hload, by rw [hkept, List.append_nil], .whole⟩
    · exact ⟨file', _, torn, hload, hwhole, htail⟩

/-- A line that only lacks its newline is kept. -/
theorem settles_text (codec : crates.LineCodec) {io : LoadIo} (hread : io.read = none)
    (hreadable : Readable crates (entries ++ [entry]))
    (hpending : pending = some entry)
    (hline : (encodeEntries crates (entries ++ [entry])).length ≤ maxJournalBytes)
    (hcontent : file.content = encodeEntries crates entries ++ crates.printEntry entry) :
    Settles crates entries pending file io := by
  obtain ⟨hentries, hseq, hparses, hcount⟩ := hreadable.of_concat
  rw [length_encodeEntries_concat] at hline
  have hsize : file.content.length ≤ maxJournalBytes := by
    rw [hcontent, List.length_append]
    omega
  have hload := load_tail codec hread hcontent (codec.oneLine entry) hsize hentries
  rw [loadTail_terminated codec io hreadable] at hload
  have hne : file.content ≠ [] := by
    rw [hcontent]
    exact List.append_ne_nil_of_right_ne_nil _ (printEntry_ne_nil codec entry)
  have hwhole : file.content ++ [10] = encodeEntries crates (entries ++ [entry]) := by
    rw [hcontent, encodeEntries_concat, List.append_assoc]
  rcases terminateLine_cases rfl hne io.terminate with hok | ⟨hfailed, content, error, herror,
    hcases⟩
  · left
    rw [hok] at hload
    refine ⟨_, _, hload, loadedFrom_loadedState (.inr ⟨entry, hpending, rfl, ?_⟩) hwhole ?_
      hreadable ?_⟩
    · rw [hcontent]
    · rw [File.content_some, List.length_append]
      rfl
    · rw [File.content_some, hwhole, length_encodeEntries_concat]
      exact hline
  · right
    rw [herror] at hload
    refine ⟨fun h => hfailed (by rw [h]; rfl), ?_⟩
    have htail {torn : List UInt8} (hpart : torn <+: crates.printEntry entry ++ [10]) :
        TornTail crates entries pending torn :=
      .part hpending hpart hseq hline fun _ => ⟨hcount, hparses⟩
    rcases hcases with rfl | rfl
    · refine ⟨_, _, crates.printEntry entry ++ [10], hload, ?_, htail (List.prefix_refl _)⟩
      rw [File.content_some, hcontent, List.append_assoc]
    · exact ⟨_, _, crates.printEntry entry, hload, hcontent, htail (List.prefix_append _ _)⟩

/-- A file of entries and a part of one more line is settled by a load. -/
theorem load_settles (codec : crates.LineCodec) (hreadable : Readable crates entries)
    (hsize : (encodeEntries crates entries).length ≤ maxJournalBytes)
    (htail : TornTail crates entries pending torn)
    (hcontent : file.content = encodeEntries crates entries ++ torn) (io : LoadIo) :
    Settles crates entries pending file io := by
  have hfits : file.content.length ≤ maxJournalBytes := by
    rw [hcontent]
    exact htail.size hsize
  cases hread : io.read with
  | some error => exact settles_unread hread htail hcontent
  | none =>
    by_cases htorn : torn = []
    · subst htorn
      rw [List.append_nil] at hcontent
      exact settles_whole codec hread hreadable hfits hcontent (.inl rfl)
    · have htail' := htail
      cases htail with
      | whole => exact absurd rfl htorn
      | @part entry _ hpending hpart hseq hline hcomplete =>
        have hreadable' (hlong : (crates.printEntry entry).length ≤ torn.length) :
            Readable crates (entries ++ [entry]) :=
          readable_concat hreadable hseq (hcomplete hlong).2 (hcomplete hlong).1
        rw [← length_encodeEntries_concat] at hline
        rcases cut_record hpart with rfl | hcut
        · have hwhole := hcontent
          rw [← encodeEntries_concat] at hwhole
          refine settles_whole codec hread (hreadable' (by simp)) hfits hwhole
            (.inr ⟨entry, hpending, rfl, ?_⟩)
          rw [hcontent, ← List.append_assoc]
          exact List.prefix_append _ _
        · by_cases htext : torn = crates.printEntry entry
          · subst htext
            exact settles_text codec hread (hreadable' le_rfl) hpending hline hcontent
          · exact settles_part codec hread hreadable hfits htail' hcontent htorn hcut htext

end

end

end Ezer.Workflow
