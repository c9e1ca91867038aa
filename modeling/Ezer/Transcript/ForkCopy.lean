import Ezer.Lib.Buffered
import Ezer.Lib.Loop
import Ezer.Lib.Utf8
import Ezer.Transcript.Lines
import Ezer.Transcript.Runs

/-!
# The streaming fork copy

A fork reads the updates file of its source twice without keeping it: first to
find the lines that survive the rewinds and the cut for a prompt, then to copy
them. Lines that are too long are left out by both passes.
-/

namespace Ezer.Transcript

open Ezer.Lib

/-- The byte at the end of a line. -/
def newline : UInt8 := 10

/-- `u8::is_ascii_whitespace` -/
def isAsciiWhitespace (byte : UInt8) : Bool :=
  byte = 0x20 || byte = 9 || byte = 10 || byte = 12 || byte = 13

/-- Bytes without the ASCII whitespace around them. -/
def trimAscii (bytes : List UInt8) : List UInt8 :=
  ((bytes.dropWhile isAsciiWhitespace).reverse.dropWhile isAsciiWhitespace).reverse

/-- The text of bytes that are UTF-8. -/
def fromUtf8 (bytes : List UInt8) : Option Text :=
  if encodeUtf8 (fromUtf8Lossy bytes) = bytes then some (fromUtf8Lossy bytes) else none

/-- Read the rest of a line that is too long, in at most so many rounds. -/
def drainLine (cap : ℕ) : ℕ → BufReader UInt8 → BufReader UInt8
  | 0, reader => reader
  | rounds + 1, reader =>
    let (buf, reader) := reader.readUntil newline cap
    if buf = [] ∨ buf.getLast? = some newline then reader else drainLine cap rounds reader

/-- A scan of lines: the reader, the index of the next line and what was made of the lines. -/
structure LineScan (σ : Type*) where
  reader : BufReader UInt8
  index : ℕ
  state : σ

section

variable {σ : Type*} (cap : ℕ) (f : ℕ → List UInt8 → σ → ForInStep σ)

/-- Read the next line of a scan. -/
def LineScan.next (scan : LineScan σ) : ForInStep (LineScan σ) :=
  let (buf, reader) := scan.reader.readUntil newline ((cap + 1) % 2 ^ 64)
  if buf = [] then .done { scan with reader := reader }
  else if cap < buf.length ∧ buf.getLast? ≠ some newline then
    -- too long: the rest of the line is read and forgotten
    .yield { scan with reader := drainLine cap (reader.rest.length + 1) reader }
  else
    let line := trimAscii buf
    if line = [] then .yield { scan with reader := reader }
    else
      match f scan.index line scan.state with
      | .done state => .done { scan with reader := reader, state := state }
      | .yield state => .yield ⟨reader, scan.index + 1, state⟩

/-- Read the lines of a file that have at most so many bytes, as long as the body goes on. -/
def forEachJsonlLineCapped (reader : BufReader UInt8) (state : σ) : Option σ :=
  (whileLoop (LineScan.next cap f) (reader.rest.length + 1) ⟨reader, 0, state⟩).map LineScan.state

end

section

variable (reader : LineReader) (cap : ℕ)

/-- Classify the bytes of a line. -/
def rewindStepForBytes (line : List UInt8) : RewindStep :=
  ((fromUtf8 line).map (rewindStepForLine reader)).getD .other

/-- The places of the lines that survive the rewinds and the cut for a prompt. -/
def survivingIndexes (source : BufReader UInt8) (targetPromptIndex : ℕ) : Option (List ℕ) :=
  (forEachJsonlLineCapped cap (fun index line records =>
      .yield (records ++ [LineRecord.mk index (rewindStepForBytes reader line)])) source []).map
    fun records =>
      let records := filterRewindBy LineRecord.step records
      let keep := truncateForPromptBy LineRecord.step records targetPromptIndex
      (records.take keep).map LineRecord.index

/-- Copy a line if it is the next to survive, and stop behind the last. -/
def copySurvivor (index : ℕ) (line : List UInt8) :
    List ℕ × List (List UInt8) → ForInStep (List ℕ × List (List UInt8))
  | (survivors, copied) =>
    let next :=
      if survivors.head? = some index then (survivors.tail, copied ++ [line]) else (survivors, copied)
    if next.1 = [] then .done next else .yield next

/-- The lines that a fork copies: `source` is what the only or the first pass reads, `again` what the
second one does. -/
def copyUpdatesStreaming (targetPromptIndex : Option ℕ) (source again : BufReader UInt8) :
    Option (List (List UInt8)) :=
  match targetPromptIndex with
  | none => forEachJsonlLineCapped cap (fun _ line copied => .yield (copied ++ [line])) source []
  | some target => do
    let survivors ← survivingIndexes reader cap source target
    let (_, copied) ← forEachJsonlLineCapped cap copySurvivor again (survivors, [])
    return copied

end

/-- A line is appended to a file behind the end of a torn line. -/
def appendJsonlLine (file line : List UInt8) : List UInt8 :=
  if file ≠ [] ∧ file.getLast? ≠ some newline then file ++ newline :: line else file ++ line

/-- The lines of a source that are neither blank nor too long. -/
def wholeLines (cap : ℕ) (source : List UInt8) : List (List UInt8) :=
  (source.splitOn newline).filter fun line => line.length ≤ cap && trimAscii line ≠ []

/-- The lines that survive the rewinds and the cut for a prompt. -/
def materialisedCopy (reader : LineReader) (targetPromptIndex : Option ℕ)
    (lines : List (List UInt8)) : List (List UInt8) :=
  match targetPromptIndex with
  | none => lines
  | some target =>
    let live := filterRewindBy (rewindStepForBytes reader) lines
    live.take (truncateForPromptBy (rewindStepForBytes reader) live target)

section

variable {σ : Type*} {cap : ℕ} {f : ℕ → List UInt8 → σ → ForInStep σ}

/-- Give lines to a body as long as it goes on. -/
def feedLines (f : ℕ → List UInt8 → σ → ForInStep σ) : ℕ → List (List UInt8) → σ → σ
  | _, [], state => state
  | index, line :: lines, state =>
    match f index line state with
    | .done state => state
    | .yield state => feedLines f (index + 1) lines state

theorem trimAscii_concat (line : List UInt8) : trimAscii (line ++ [newline]) = trimAscii line := by
  rw [trimAscii, trimAscii, List.dropWhile_append]
  split
  · rename_i h
    rw [List.isEmpty_iff.mp h]
    rfl
  · simp [isAsciiWhitespace, newline]

/-- What stands behind a line: its end and more lines, or nothing. -/
def EndsLine (tail more : List UInt8) : Prop := tail = newline :: more ∨ tail = [] ∧ more = []

theorem exists_line (source : List UInt8) :
    ∃ line tail more, newline ∉ line ∧ EndsLine tail more ∧ source = line ++ tail := by
  rcases exists_first_line newline source with hmem | ⟨line, more, hline, hsource⟩
  · exact ⟨source, [], [], hmem, Or.inr ⟨rfl, rfl⟩, (List.append_nil source).symm⟩
  · exact ⟨line, newline :: more, more, hline, Or.inl rfl, hsource⟩

theorem getLast?_ne_newline {line : List UInt8} (h : newline ∉ line) :
    line.getLast? ≠ some newline :=
  fun hlast => h (List.mem_of_getLast? hlast)

/-- Behind a line that is too long the next one starts. -/
theorem rest_drainLine (hcap : 1 ≤ cap) {line tail more : List UInt8} (hline : newline ∉ line)
    (htail : EndsLine tail more) {rounds : ℕ} {reader : BufReader UInt8}
    (hrest : reader.rest = line ++ tail) (hrounds : line.length < rounds) :
    (drainLine cap rounds reader).rest = more := by
  induction rounds generalizing line reader with
  | zero => omega
  | succ rounds ih =>
    rw [drainLine]
    by_cases hpart : cap ≤ line.length ∨ tail = []
    · obtain ⟨next, hnext, hread⟩ := BufReader.readUntil_part hline hrest hpart
      rw [hread]
      dsimp only
      split
      case isTrue hend =>
        have hnil : line.take cap = [] := by
          refine hend.resolve_right (getLast?_ne_newline fun hmem => hline ?_)
          exact List.mem_of_mem_take hmem
        have hempty : line = [] := by
          rw [List.take_eq_nil_iff] at hnil
          exact hnil.resolve_left (by omega)
        subst hempty
        have htail' : tail = [] := hpart.resolve_left (by simpa using Nat.ne_of_gt hcap)
        rw [hnext, htail', List.drop_nil, List.append_nil]
        rcases htail with htail | htail
        · simp [htail] at htail'
        · exact htail.2.symm
      case isFalse hgo =>
        refine ih (fun hmem => hline (List.mem_of_mem_drop hmem)) hnext ?_
        have hne : line ≠ [] := by
          rintro rfl
          simp at hgo
        have hpos := List.length_pos_iff.mpr hne
        rw [List.length_drop]
        omega
    · rw [not_or, Nat.not_le] at hpart
      have hmore : tail = newline :: more := htail.resolve_right fun h => hpart.2 h.1
      rw [hmore] at hrest
      obtain ⟨next, hnext, hread⟩ := BufReader.readUntil_line hline hrest hpart.1
      rw [hread]
      dsimp only
      rw [if_pos (by simp), hnext]

/-- A round reads one line, and gives it to the body unless it is too long or blank. -/
theorem LineScan.next_eq (hcap : 1 ≤ cap) (hword : cap + 1 < 2 ^ 64) {line tail more : List UInt8}
    (hline : newline ∉ line) (htail : EndsLine tail more) (hne : line ++ tail ≠ [])
    {scan : LineScan σ} (hrest : scan.reader.rest = line ++ tail) :
    ∃ reader : BufReader UInt8, reader.rest = more ∧ scan.next cap f =
      if cap < line.length ∨ trimAscii line = [] then .yield { scan with reader := reader }
      else
        match f scan.index (trimAscii line) scan.state with
        | .done state => .done { scan with reader := reader, state := state }
        | .yield state => .yield ⟨reader, scan.index + 1, state⟩ := by
  rw [next, Nat.mod_eq_of_lt hword]
  by_cases hlong : cap < line.length
  · have hlimit : cap + 1 ≤ line.length ∨ tail = [] := Or.inl hlong
    obtain ⟨reader, hreader, hread⟩ := BufReader.readUntil_part hline hrest hlimit
    have hlength : (line.take (cap + 1)).length = cap + 1 := List.length_take_of_le hlong
    have hbuf : line.take (cap + 1) ≠ [] := by
      rw [← List.length_pos_iff, hlength]
      omega
    have hlast : (line.take (cap + 1)).getLast? ≠ some newline :=
      getLast?_ne_newline fun hmem => hline (List.mem_of_mem_take hmem)
    have hdrained : (drainLine cap (reader.rest.length + 1) reader).rest = more := by
      refine rest_drainLine hcap (fun hmem => hline (List.mem_of_mem_drop hmem)) htail hreader ?_
      rw [hreader, List.length_append]
      omega
    refine ⟨_, hdrained, ?_⟩
    rw [hread]
    dsimp only
    rw [if_neg hbuf, if_pos ⟨by omega, hlast⟩, if_pos (Or.inl hlong)]
  · have hshort : ∃ buf, ∃ reader : BufReader UInt8,
        scan.reader.readUntil newline (cap + 1) = (buf, reader) ∧ reader.rest = more ∧ buf ≠ [] ∧
        ¬(cap < buf.length ∧ buf.getLast? ≠ some newline) ∧ trimAscii buf = trimAscii line := by
      rcases htail with rfl | ⟨rfl, rfl⟩
      · obtain ⟨reader, hreader, hread⟩ :=
          BufReader.readUntil_line hline hrest (Nat.lt_succ_of_le (Nat.not_lt.mp hlong))
        exact ⟨_, reader, hread, hreader, by simp, by simp, trimAscii_concat line⟩
      · have hlimit : cap + 1 ≤ line.length ∨ ([] : List UInt8) = [] := Or.inr rfl
        obtain ⟨reader, hreader, hread⟩ := BufReader.readUntil_part hline hrest hlimit
        rw [List.take_of_length_le (by omega)] at hread
        rw [List.drop_eq_nil_of_le (by omega)] at hreader
        rw [List.append_nil] at hne
        exact ⟨_, reader, hread, hreader, hne, fun h => hlong h.1, rfl⟩
    obtain ⟨buf, reader, hread, hreader, hbuf, hfits, htrim⟩ := hshort
    refine ⟨reader, hreader, ?_⟩
    rw [hread]
    simp only [hlong, false_or]
    rw [if_neg hbuf, if_neg hfits, htrim]

@[simp] theorem wholeLines_nil : wholeLines cap [] = [] := by simp [wholeLines, trimAscii]

/-- The first line of a source is left out or stands before the others. -/
theorem wholeLines_split {line tail more : List UInt8} (hline : newline ∉ line)
    (htail : EndsLine tail more) :
    wholeLines cap (line ++ tail) =
      if cap < line.length ∨ trimAscii line = [] then wholeLines cap more
      else line :: wholeLines cap more := by
  have hlines : wholeLines cap (line ++ tail) =
      [line].filter (fun line => line.length ≤ cap && trimAscii line ≠ []) ++
        wholeLines cap more := by
    rcases htail with rfl | ⟨rfl, rfl⟩
    · rw [wholeLines, List.splitOn_append_cons_self, List.splitOn_eq_singleton hline,
        List.filter_append]
      rfl
    · rw [wholeLines, List.append_nil, List.splitOn_eq_singleton hline, wholeLines_nil,
        List.append_nil]
  rw [hlines]
  by_cases hlong : cap < line.length
  · simp [hlong, Nat.not_le.mpr hlong]
  · by_cases hblank : trimAscii line = []
    · simp [hblank]
    · simp [hlong, hblank, Nat.not_lt.mp hlong]

/-- The lines of a file that are not too long are given to the body one by one. -/
theorem forEachJsonlLineCapped_eq (hcap : 1 ≤ cap) (hword : cap + 1 < 2 ^ 64)
    (reader : BufReader UInt8) (state : σ) :
    forEachJsonlLineCapped cap f reader state =
      some (feedLines f 0 ((wholeLines cap reader.rest).map trimAscii) state) := by
  have hloop (rounds : ℕ) (scan : LineScan σ) (hrounds : scan.reader.rest.length < rounds) :
      (whileLoop (LineScan.next cap f) rounds scan).map LineScan.state =
        some (feedLines f scan.index ((wholeLines cap scan.reader.rest).map trimAscii)
          scan.state) := by
    induction rounds generalizing scan with
    | zero => omega
    | succ rounds ih =>
      by_cases hend : scan.reader.rest = []
      · have hdone : scan.next cap f = .done { scan with
            reader := (scan.reader.readUntil newline ((cap + 1) % 2 ^ 64)).2 } := by
          have hread := scan.reader.readUntil_fst newline ((cap + 1) % 2 ^ 64)
          rw [hend, List.take_nil, upTo] at hread
          rw [LineScan.next]
          simp only [hread]
          rfl
        rw [whileLoop_of_done hdone, hend, wholeLines_nil]
        rfl
      · obtain ⟨line, tail, more, hline, htail, hrest⟩ := exists_line scan.reader.rest
        have hmore : more.length < scan.reader.rest.length := by
          rw [hrest, List.length_append]
          rcases htail with rfl | ⟨rfl, rfl⟩
          · rw [List.length_cons]
            omega
          · rw [hrest, List.append_nil] at hend
            have hpos := List.length_pos_iff.mpr hend
            simpa using hpos
        obtain ⟨reader, hreader, hnext⟩ :=
          LineScan.next_eq hcap hword hline htail (by rwa [← hrest]) hrest
        rw [hrest, wholeLines_split hline htail]
        split at hnext
        case isTrue hskip =>
          rw [whileLoop_of_yield hnext, if_pos hskip, ih _ (by simp only [hreader]; omega), hreader]
        case isFalse hkeep =>
          rw [if_neg hkeep, List.map_cons, feedLines]
          cases hbody : f scan.index (trimAscii line) scan.state with
          | done state =>
            rw [hbody] at hnext
            rw [whileLoop_of_done hnext]
            rfl
          | yield state =>
            rw [hbody] at hnext
            rw [whileLoop_of_yield hnext, ih _ (by simp only [hreader]; omega), hreader]
  exact hloop _ ⟨reader, 0, state⟩ (Nat.lt_succ_self _)

end

section

variable (reader : LineReader) {cap : ℕ}

/-- A body that keeps everything keeps something of every line. -/
theorem feedLines_collect {α : Type*} (g : ℕ → List UInt8 → α) (index : ℕ)
    (lines : List (List UInt8)) (kept : List α) :
    feedLines (fun index line kept => .yield (kept ++ [g index line])) index lines kept =
      kept ++ (lines.zipIdx index).map fun entry => g entry.2 entry.1 := by
  induction lines generalizing index kept with
  | nil => simp [feedLines]
  | cons line lines ih => simp [feedLines, ih]

theorem feedLines_copySurvivor {index : ℕ} {lines : List (List UInt8)}
    {chosen : List (List UInt8 × ℕ)} (h : chosen.Sublist (lines.zipIdx index))
    (more : List (List UInt8)) (copied : List (List UInt8)) :
    feedLines copySurvivor index (lines ++ more) (chosen.map Prod.snd, copied) =
      ([], copied ++ chosen.map Prod.fst) := by
  induction lines generalizing index chosen copied with
  | nil =>
    rw [List.zipIdx_nil, List.sublist_nil] at h
    subst h
    cases more with
    | nil => simp [feedLines]
    | cons line more => simp [feedLines, copySurvivor]
  | cons line lines ih =>
    rw [List.zipIdx_cons] at h
    rw [List.cons_append, feedLines, copySurvivor]
    cases h with
    | cons _ h =>
      have hhead : (chosen.map Prod.snd).head? ≠ some index := by
        intro hhead
        obtain ⟨entry, hentry, hindex⟩ := List.mem_map.mp (List.mem_of_head? hhead)
        have hle := List.le_snd_of_mem_zipIdx (h.subset hentry)
        omega
      rw [if_neg hhead]
      by_cases hnil : chosen = []
      · simp [hnil]
      · simpa [hnil] using ih h copied
    | cons_cons _ h =>
      rename_i rest
      simp only [List.map_cons, List.head?_cons, if_true, List.tail_cons]
      by_cases hnil : rest = []
      · simp [hnil]
      · simpa [hnil] using ih h (copied ++ [line])

/-- The records of some lines. -/
theorem mapIdx_lineRecord (lines : List (List UInt8)) :
    (lines.map (rewindStepForBytes reader)).mapIdx LineRecord.mk =
      lines.zipIdx.map fun entry => ⟨entry.2, rewindStepForBytes reader entry.1⟩ := by
  rw [List.mapIdx_eq_zipIdx_map, List.zipIdx_map, List.map_map]
  rfl

theorem survivingIndexes_eq (hcap : 1 ≤ cap) (hword : cap + 1 < 2 ^ 64)
    (source : BufReader UInt8) (targetPromptIndex : ℕ) :
    survivingIndexes reader cap source targetPromptIndex =
      some (survivingLineIndexes
        (((wholeLines cap source.rest).map trimAscii).map (rewindStepForBytes reader))
        targetPromptIndex) := by
  rw [survivingIndexes, forEachJsonlLineCapped_eq hcap hword, feedLines_collect, List.nil_append,
    Option.map_some, survivingLineIndexes, mapIdx_lineRecord]

theorem exists_chosen (lines : List (List UInt8)) (targetPromptIndex : ℕ) :
    ∃ chosen : List (List UInt8 × ℕ), chosen.Sublist lines.zipIdx ∧
      chosen.map Prod.snd =
        survivingLineIndexes (lines.map (rewindStepForBytes reader)) targetPromptIndex ∧
      chosen.map Prod.fst = materialisedCopy reader (some targetPromptIndex) lines := by
  let live := filterRewindBy (rewindStepForBytes reader ∘ Prod.fst) lines.zipIdx
  let keep := truncateForPromptBy (rewindStepForBytes reader ∘ Prod.fst) live targetPromptIndex
  refine ⟨live.take keep, (List.take_sublist keep live).trans (filterRewindBy_sublist _), ?_, ?_⟩
  · rw [survivingLineIndexes, mapIdx_lineRecord, filterRewindBy_map, truncateForPromptBy_map,
      ← List.map_take, List.map_map]
    rfl
  · have hlive : filterRewindBy (rewindStepForBytes reader) lines = live.map Prod.fst := by
      rw [← filterRewindBy_map, List.zipIdx_map_fst]
    rw [materialisedCopy, hlive, truncateForPromptBy_map, ← List.map_take]

theorem wholeLines_append (cap : ℕ) (file : List UInt8) (appended : List (List UInt8)) :
    wholeLines cap file <+: wholeLines cap (appended.foldl appendJsonlLine file) := by
  induction appended generalizing file with
  | nil => exact List.prefix_refl _
  | cons line appended ih =>
    refine List.IsPrefix.trans ?_ (ih (appendJsonlLine file line))
    rw [appendJsonlLine]
    split
    case isTrue htorn =>
      rw [wholeLines, wholeLines, List.splitOn_append_cons_self, List.filter_append]
      exact List.prefix_append _ _
    case isFalse hwhole =>
      by_cases hempty : file = []
      · rw [hempty, wholeLines_nil]
        exact List.nil_prefix
      · have hlast : file.getLast? = some newline := by
          by_contra hlast
          exact hwhole ⟨hempty, hlast⟩
        obtain ⟨front, rfl⟩ := List.getLast?_eq_some_iff.mp hlast
        have hend : wholeLines cap (front ++ [newline]) =
            (front.splitOn newline).filter fun line =>
              line.length ≤ cap && trimAscii line ≠ [] := by
          rw [wholeLines, List.splitOn_append_cons_self, List.filter_append, List.splitOn_nil]
          simp [trimAscii]
        rw [hend, wholeLines, ← List.append_cons, List.splitOn_append_cons_self,
          List.filter_append]
        exact List.prefix_append _ _

/-- A fork copies the lines of its source that are neither blank nor too long, without the
whitespace around them, as far as they survive the rewinds and the cut. Lines that are appended
between the passes change nothing. -/
theorem copyUpdatesStreaming_eq (hcap : 1 ≤ cap) (hword : cap + 1 < 2 ^ 64)
    (targetPromptIndex : Option ℕ) (source again : BufReader UInt8)
    (appended : List (List UInt8)) (hagain : again.rest = appended.foldl appendJsonlLine source.rest) :
    copyUpdatesStreaming reader cap targetPromptIndex source again =
      some (materialisedCopy reader targetPromptIndex
        ((wholeLines cap source.rest).map trimAscii)) := by
  cases targetPromptIndex with
  | none =>
    rw [copyUpdatesStreaming, forEachJsonlLineCapped_eq hcap hword,
      feedLines_collect (fun _ line => line), List.nil_append, List.zipIdx_map_fst]
    rfl
  | some target =>
    obtain ⟨chosen, hchosen, hindexes, hcopied⟩ :=
      exists_chosen reader ((wholeLines cap source.rest).map trimAscii) target
    obtain ⟨more, hmore⟩ := wholeLines_append cap source.rest appended
    rw [copyUpdatesStreaming, survivingIndexes_eq reader hcap hword, ← hindexes, ← hcopied,
      Option.bind_eq_bind, Option.bind_some, forEachJsonlLineCapped_eq hcap hword, hagain, ← hmore,
      List.map_append, feedLines_copySurvivor hchosen, List.nil_append]
    rfl

end

/-- A file of a first prompt, a second one that is rewound, and its retry. -/
def retriedFile : List UInt8 :=
  encodeUtf8 (SampleLine.file
    [.promptChunk 0, .promptChunk 1, .marker 1, .promptChunk 1, .promptChunk 2])

/-- The two prompts up to the cut are copied, though a line is appended meanwhile. -/
theorem retried_prompt_copied :
    copyUpdatesStreaming (SampleLine.reader [.promptChunk 0, .promptChunk 1, .marker 1, .promptChunk 2])
        1000 (some 1) (.ofSource retriedFile)
        (.ofSource ([[97, newline]].foldl appendJsonlLine retriedFile)) =
      some [encodeUtf8 (SampleLine.promptChunk 0).text, encodeUtf8 (SampleLine.promptChunk 1).text] :=
  (copyUpdatesStreaming_eq _ (by decide) (by decide) (some 1) (.ofSource retriedFile) _ [[97, newline]]
    (by rw [BufReader.rest_ofSource, BufReader.rest_ofSource])).trans (by
      rw [BufReader.rest_ofSource]
      decide +kernel)

/-- The whitespace around a line is not copied; a line that is appended right behind a torn one is
copied with it; and with the widest limit nothing is copied. -/
theorem not_copied_as_split :
    copyUpdatesStreaming (SampleLine.reader []) 8 none (.ofSource [32, 97, newline])
        (.ofSource [32, 97, newline]) ≠
      some (materialisedCopy (SampleLine.reader []) none (wholeLines 8 [32, 97, newline])) ∧
    copyUpdatesStreaming (SampleLine.reader []) 8 (some 0) (.ofSource [97])
        (.ofSource ([97] ++ [98, newline])) ≠
      some (materialisedCopy (SampleLine.reader []) (some 0) (wholeLines 8 [97])) ∧
    copyUpdatesStreaming (SampleLine.reader []) (2 ^ 64 - 1) none (.ofSource [97, newline])
        (.ofSource [97, newline]) ≠
      some (materialisedCopy (SampleLine.reader []) none (wholeLines (2 ^ 64 - 1) [97, newline])) := by
  decide +kernel

end Ezer.Transcript
