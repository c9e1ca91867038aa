import Ezer.ApplyPatch.Apply
import Ezer.Lib.Splice

/-!
# The ranges that the chunks of an update replace

Every chunk is found in bounds, up to one of four normal forms of its lines. The
ranges stand apart, and replacing them one by one is replacing them all at
once, as long as no chunk for the end of the file is found over the lines of an
earlier chunk, and no addition stands within lines that another chunk replaces.
-/

namespace Ezer.ApplyPatch

open Ezer.Lib

/-- The normal forms up to which lines are compared, the strictest one first. -/
def strictness : List (Text → Text) := [id, trimEnd, trim, normalise]

/-- A pattern stands at an index of some lines up to one of the normal forms. -/
def FoundAt (lines pattern : List Text) (i : ℕ) : Prop :=
  i + pattern.length ≤ lines.length ∧ ∃ normal ∈ strictness, matchesAt normal lines pattern i = true

/-- The index at which a chunk without old lines is added. -/
def insertionIdx (lines : List Text) : ℕ :=
  if endsEmpty lines then lines.length - 1 else lines.length

/-- The edit that a replacement makes. -/
def Replacement.toEdit (r : Replacement) : Edit Text := ⟨r.1, r.1 + r.2.1, r.2.2⟩

/-- A replacement answers a chunk: it adds the lines of an addition, or replaces the lines at
which the old lines were found, or the old lines without an empty last one. -/
inductive Answers (lines : List Text) (chunk : UpdateFileChunk) : Replacement → Prop
  | addition (hold : chunk.oldLines = []) :
      Answers lines chunk (insertionIdx lines, 0, chunk.newLines)
  | found {start : ℕ} (hold : chunk.oldLines ≠ []) (hfound : FoundAt lines chunk.oldLines start) :
      Answers lines chunk (start, chunk.oldLines.length, chunk.newLines)
  | foundShort {start : ℕ} (hold : endsEmpty chunk.oldLines = true)
      (hfound : FoundAt lines chunk.oldLines.dropLast start) :
      Answers lines chunk (start, chunk.oldLines.dropLast.length,
        if endsEmpty chunk.newLines then chunk.newLines.dropLast else chunk.newLines)

section Seek

variable {lines pattern : List Text} {start stop i : ℕ} {eof : Bool}

theorem of_seekFrom {found : ℕ → Bool} (h : seekFrom found start stop = some i) :
    start ≤ i ∧ i ≤ stop ∧ found i = true := by
  have hmem := List.mem_of_find?_eq_some h
  rw [List.mem_range'_1] at hmem
  exact ⟨hmem.1, by omega, List.find?_some h⟩

/-- A pattern that is found stands in bounds: behind the start, or at the end of the file. -/
theorem of_seekSequence (hne : pattern ≠ []) (h : seekSequence lines pattern start eof = some i) :
    FoundAt lines pattern i ∧ (eof = false → start ≤ i) ∧
      (eof = true → i + pattern.length = lines.length) := by
  rw [seekSequence, if_neg (by simpa using hne)] at h
  split at h
  · cases h
  · rename_i hlength
    have hlevel : ∃ normal ∈ strictness, seekFrom (matchesAt normal lines pattern)
        (if eof then lines.length - pattern.length else start)
          (lines.length - pattern.length) = some i := by
      simp only [Option.or_eq_some_iff] at h
      rcases h with h | ⟨-, h | ⟨-, h | ⟨-, h⟩⟩⟩
      · exact ⟨id, by simp [strictness], h⟩
      · exact ⟨trimEnd, by simp [strictness], h⟩
      · exact ⟨trim, by simp [strictness], h⟩
      · exact ⟨normalise, by simp [strictness], h⟩
    obtain ⟨normal, hnormal, hseek⟩ := hlevel
    obtain ⟨hstart, hstop, hmatch⟩ := of_seekFrom hseek
    refine ⟨⟨by omega, normal, hnormal, hmatch⟩, fun heof => ?_, fun heof => ?_⟩
    · rwa [heof, if_neg Bool.false_ne_true] at hstart
    · rw [heof, if_pos rfl] at hstart
      omega

theorem seekSequence_nil (lines : List Text) (start : ℕ) (eof : Bool) :
    seekSequence lines [] start eof = some start := rfl

theorem foundAt_nil (h : i ≤ lines.length) : FoundAt lines [] i :=
  ⟨by simpa using h, id, List.mem_cons_self, by simp [matchesAt]⟩

end Seek

/-- Where the cursor may be and what a chunk's replacement does to it. -/
structure Advances (lines : List Text) (chunk : UpdateFileChunk) (cursor : ℕ) (r : Replacement) :
    Prop where
  answers : Answers lines chunk r
  within : r.1 + r.2.1 ≤ lines.length
  cursor_le : cursor ≤ r.1 + r.2.1
  inOrder : chunk.isEndOfFile = false → cursor ≤ r.1

section Chunks

variable {lines : List Text} {path : Text} {chunk : UpdateFileChunk} {chunks : List UpdateFileChunk}
  {cursor cursor' : ℕ} {r : Replacement} {rs sorted : List Replacement}

theorem of_seekContext (hcursor : cursor ≤ lines.length) {context : Option Text}
    (h : seekContext lines path context cursor = .ok cursor') :
    cursor ≤ cursor' ∧ cursor' ≤ lines.length := by
  cases context with
  | none =>
    cases h
    exact ⟨le_rfl, hcursor⟩
  | some line =>
    rw [seekContext] at h
    split at h
    · rename_i idx hseek
      cases h
      obtain ⟨hfound, hstart, -⟩ := of_seekSequence (List.cons_ne_nil _ _) hseek
      have hbound : idx + 1 ≤ lines.length := hfound.1
      have hle := hstart rfl
      omega
    · cases h

theorem advances_of_seekSequence {start : ℕ} {pattern newLines : List Text}
    (hcursor : cursor ≤ lines.length)
    (hseek : seekSequence lines pattern cursor chunk.isEndOfFile = some start)
    (hanswers : FoundAt lines pattern start → Answers lines chunk (start, pattern.length, newLines)) :
    Advances lines chunk cursor (start, pattern.length, newLines) := by
  by_cases hne : pattern = []
  · subst hne
    rw [seekSequence_nil] at hseek
    cases hseek
    exact ⟨hanswers (foundAt_nil hcursor), hcursor, le_rfl, fun _ => le_rfl⟩
  · obtain ⟨hfound, hstart, hend⟩ := of_seekSequence hne hseek
    refine ⟨hanswers hfound, hfound.1, ?_, hstart⟩
    cases heof : chunk.isEndOfFile with
    | false => exact le_trans (hstart heof) (Nat.le_add_right _ _)
    | true => exact le_trans hcursor (hend heof).ge

theorem advances_of_seekChunk (hold : chunk.oldLines ≠ []) (hcursor : cursor ≤ lines.length)
    (h : seekChunk lines chunk cursor = some r) : Advances lines chunk cursor r := by
  unfold seekChunk at h
  split at h
  · rename_i start hseek
    cases h
    exact advances_of_seekSequence hcursor hseek (.found hold)
  · split at h
    · rename_i hempty
      obtain ⟨start, hseek, rfl⟩ := Option.map_eq_some_iff.mp h
      exact advances_of_seekSequence hcursor hseek (.foundShort hempty)
    · cases h

theorem insertionIdx_le (lines : List Text) : insertionIdx lines ≤ lines.length := by
  unfold insertionIdx
  split <;> omega

/-- What is known of two chunks, one asked for before the other: a chunk for the end of the file
is found behind the earlier one, and an addition stands apart from lines that are replaced. -/
structure Undisturbed (earlier later : UpdateFileChunk × Replacement) : Prop where
  endOfFile : earlier.1.oldLines ≠ [] → later.1.oldLines ≠ [] → later.1.isEndOfFile = true →
    earlier.2.toEdit.stop ≤ later.2.toEdit.start
  addition : ¬(earlier.1.oldLines = [] ↔ later.1.oldLines = []) →
    earlier.2.toEdit.Apart later.2.toEdit

/-- The replacements of chunks that are found from a cursor on. -/
inductive Replaced (lines : List Text) : ℕ → List UpdateFileChunk → List Replacement → Prop
  | nil {cursor : ℕ} : Replaced lines cursor [] []
  | addition {cursor cursor' : ℕ} {chunk : UpdateFileChunk} {chunks : List UpdateFileChunk}
      {rs : List Replacement} (hle : cursor ≤ cursor') (hold : chunk.oldLines = [])
      (hrest : Replaced lines cursor' chunks rs) :
      Replaced lines cursor (chunk :: chunks) ((insertionIdx lines, 0, chunk.newLines) :: rs)
  | found {cursor cursor' : ℕ} {chunk : UpdateFileChunk} {chunks : List UpdateFileChunk}
      {r : Replacement} {rs : List Replacement} (hle : cursor ≤ cursor')
      (hold : chunk.oldLines ≠ []) (hadvances : Advances lines chunk cursor' r)
      (hrest : Replaced lines (r.1 + r.2.1) chunks rs) :
      Replaced lines cursor (chunk :: chunks) (r :: rs)

theorem replaced_of_chunkReplacements (hcursor : cursor ≤ lines.length)
    (h : chunkReplacements lines path chunks cursor = .ok rs) : Replaced lines cursor chunks rs := by
  induction chunks generalizing cursor rs with
  | nil =>
    cases h
    exact .nil
  | cons chunk chunks ih =>
    rw [chunkReplacements] at h
    split at h
    · cases h
    · rename_i cursor' hcontext
      obtain ⟨hle, hcursor'⟩ := of_seekContext hcursor hcontext
      split at h
      · rename_i hempty
        dsimp only at h
        split at h
        · cases h
        · rename_i rest hrest
          cases h
          exact .addition hle (List.isEmpty_iff.mp hempty) (ih hcursor' hrest)
      · rename_i hold
        have hne : chunk.oldLines ≠ [] := fun hnil => hold (List.isEmpty_iff.mpr hnil)
        split at h
        · cases h
        · rename_i start oldLen newLines hseek
          have hadvances := advances_of_seekChunk hne hcursor' hseek
          split at h
          · cases h
          · rename_i rest hrest
            cases h
            exact .found hle hne hadvances (ih hadvances.within hrest)

theorem Replaced.answers (h : Replaced lines cursor chunks rs) :
    List.Forall₂ (Answers lines) chunks rs := by
  induction h with
  | nil => exact .nil
  | addition hle hold hrest ih => exact .cons (.addition hold) ih
  | found hle hold hadvances hrest ih => exact .cons hadvances.answers ih

theorem Replaced.within (h : Replaced lines cursor chunks rs) :
    ∀ r ∈ rs, r.1 + r.2.1 ≤ lines.length := by
  induction h with
  | nil => exact fun _ hr => absurd hr List.not_mem_nil
  | addition hle hold hrest ih => exact List.forall_mem_cons.mpr ⟨insertionIdx_le lines, ih⟩
  | found hle hold hadvances hrest ih => exact List.forall_mem_cons.mpr ⟨hadvances.within, ih⟩

/-- A chunk that is not for the end of the file is found behind the cursor. -/
theorem Replaced.cursor_le (h : Replaced lines cursor chunks rs) :
    ∀ p ∈ chunks.zip rs, p.1.oldLines ≠ [] → p.1.isEndOfFile = false → cursor ≤ p.2.1 := by
  induction h with
  | nil => exact fun _ hp => absurd hp List.not_mem_nil
  | addition hle hold hrest ih =>
    rw [List.zip_cons_cons, List.forall_mem_cons]
    exact ⟨fun hne => absurd hold hne, fun p hp hne heof => le_trans hle (ih p hp hne heof)⟩
  | found hle hold hadvances hrest ih =>
    rw [List.zip_cons_cons, List.forall_mem_cons]
    refine ⟨fun _ heof => le_trans hle (hadvances.inOrder heof), fun p hp hne heof => ?_⟩
    exact le_trans (le_trans hle hadvances.cursor_le) (ih p hp hne heof)

theorem Replaced.addition_eq (h : Replaced lines cursor chunks rs) :
    ∀ p ∈ chunks.zip rs, p.1.oldLines = [] → p.2.1 = insertionIdx lines ∧ p.2.2.1 = 0 := by
  induction h with
  | nil => exact fun _ hp => absurd hp List.not_mem_nil
  | addition hle hold hrest ih =>
    rw [List.zip_cons_cons, List.forall_mem_cons]
    exact ⟨fun _ => ⟨rfl, rfl⟩, ih⟩
  | found hle hold hadvances hrest ih =>
    rw [List.zip_cons_cons, List.forall_mem_cons]
    exact ⟨fun hnil => absurd hnil hold, ih⟩

/-- The lines of chunks that are found come one behind the other, and all ranges stand apart,
when no two chunks disturb each other. -/
theorem Replaced.pairwise_apart (h : Replaced lines cursor chunks rs)
    (hclear : (chunks.zip rs).Pairwise Undisturbed) :
    (chunks.zip rs).Pairwise fun p q => p.2.toEdit.Apart q.2.toEdit ∧
      (p.1.oldLines ≠ [] → q.1.oldLines ≠ [] → p.2.toEdit.stop ≤ q.2.toEdit.start) := by
  induction h with
  | nil => exact List.Pairwise.nil
  | @addition cursor cursor' chunk chunks rs hle hold hrest ih =>
    rw [List.zip_cons_cons, List.pairwise_cons] at hclear ⊢
    refine ⟨fun q hq => ⟨?_, fun hne => absurd hold hne⟩, ih hclear.2⟩
    by_cases hq' : q.1.oldLines = []
    · have hat := (hrest.addition_eq q hq hq').1
      exact Or.inl hat.ge
    · exact (hclear.1 q hq).addition (by simp [hold, hq'])
  | @found cursor cursor' chunk chunks r rs hle hold hadvances hrest ih =>
    rw [List.zip_cons_cons, List.pairwise_cons] at hclear ⊢
    have hbehind : ∀ q ∈ chunks.zip rs, q.1.oldLines ≠ [] →
        r.toEdit.stop ≤ q.2.toEdit.start := by
      intro q hq hne
      cases heof : q.1.isEndOfFile with
      | false => exact hrest.cursor_le q hq hne heof
      | true => exact (hclear.1 q hq).endOfFile hold hne heof
    refine ⟨fun q hq => ⟨?_, fun _ hne => hbehind q hq hne⟩, ih hclear.2⟩
    by_cases hq' : q.1.oldLines = []
    · exact (hclear.1 q hq).addition (by simp [hold, hq'])
    · exact Or.inl (hbehind q hq hq')

end Chunks

/-- The ranges of chunks that have old lines, in the order of the chunks. -/
def foundRanges (chunks : List UpdateFileChunk) (rs : List Replacement) : List Replacement :=
  ((chunks.zip rs).filter fun p => !p.1.oldLines.isEmpty).map Prod.snd

/-- Replacements answer their chunks one by one, in bounds and apart, and make up one splice. -/
structure InPlace (lines : List Text) (chunks : List UpdateFileChunk) (rs : List Replacement) :
    Prop where
  answers : List.Forall₂ (Answers lines) chunks rs
  within : ∀ r ∈ rs, r.toEdit.stop ≤ lines.length
  apart : rs.Pairwise fun a b => a.toEdit.stop ≤ b.toEdit.start
  splice : applyReplacements lines rs = Edit.splice lines (rs.map Replacement.toEdit)

section Compute

variable {lines : List Text} {path : Text} {chunks : List UpdateFileChunk}
  {rs sorted : List Replacement}

theorem map_toEdit_insertionSort (rs : List Replacement) :
    (rs.insertionSort fun a b => a.1 ≤ b.1).map Replacement.toEdit =
      Edit.sortByStart (rs.map Replacement.toEdit) :=
  List.map_insertionSort _ _ _ _ fun _ _ _ _ => Iff.rfl

theorem applyReplacements_eq_foldr (lines : List Text) (rs : List Replacement) :
    applyReplacements lines rs =
      (rs.map Replacement.toEdit).foldr (fun e ls => Edit.apply ls e) lines := by
  rw [applyReplacements, List.foldl_reverse, List.foldr_map]
  rfl

/-- Replacements that stand apart in bounds make up one splice. -/
theorem applyReplacements_eq_splice (hwithin : ∀ r ∈ rs, r.toEdit.stop ≤ lines.length)
    (hapart : rs.Pairwise fun a b => a.toEdit.stop ≤ b.toEdit.start) :
    applyReplacements lines rs = Edit.splice lines (rs.map Replacement.toEdit) := by
  rw [applyReplacements_eq_foldr]
  refine Edit.foldr_apply_eq_splice (Edit.ordered_iff.mpr ⟨Nat.zero_le _, ?_, ?_⟩)
  · intro e he
    obtain ⟨r, hr, rfl⟩ := List.mem_map.mp he
    exact ⟨Nat.zero_le _, Nat.le_add_right _ _, hwithin r hr⟩
  · exact List.pairwise_map.mpr hapart

/-- The second components of two lists that answer each other are the second list. -/
theorem map_snd_zip_of_answers (h : List.Forall₂ (Answers lines) chunks rs) :
    (chunks.zip rs).map Prod.snd = rs := List.map_snd_zip h.length_eq.ge

theorem of_computeReplacements (h : computeReplacements lines path chunks = .ok sorted) :
    ∃ rs, chunkReplacements lines path chunks 0 = .ok rs ∧
      rs.insertionSort (fun a b => a.1 ≤ b.1) = sorted := by
  rw [computeReplacements] at h
  cases hrs : chunkReplacements lines path chunks 0 with
  | error e =>
    rw [hrs] at h
    cases h
  | ok rs =>
    rw [hrs] at h
    exact ⟨rs, rfl, Except.ok.inj h⟩

/-- Sorted ranges of chunks that do not disturb each other come one behind the other. -/
theorem Replaced.pairwise_sorted {cursor : ℕ} (h : Replaced lines cursor chunks rs)
    (hclear : (chunks.zip rs).Pairwise Undisturbed) :
    (rs.insertionSort fun a b => a.1 ≤ b.1).Pairwise
      fun a b => a.toEdit.stop ≤ b.toEdit.start := by
  have hranges : ∀ e ∈ rs.map Replacement.toEdit, e.start ≤ e.stop := by
    intro e he
    obtain ⟨r, -, rfl⟩ := List.mem_map.mp he
    exact Nat.le_add_right _ _
  have happart : (rs.map Replacement.toEdit).Pairwise Edit.Apart := by
    have hmap := (h.pairwise_apart hclear).imp (fun h => h.1)
    rw [← map_snd_zip_of_answers h.answers, List.map_map, List.pairwise_map]
    exact hmap
  have hsorted := Edit.pairwise_sortByStart_of_apart hranges happart
  rwa [← map_toEdit_insertionSort, List.pairwise_map] at hsorted

/-- The ranges of an update are in bounds and answer its chunks. When no two chunks disturb each
other, the lines of the chunks are found in the order of the chunks, all ranges stand apart, and
replacing them from the last to the first is replacing them all at once. -/
theorem computeReplacements_inPlace (h : computeReplacements lines path chunks = .ok sorted) :
    ∃ rs, List.Forall₂ (Answers lines) chunks rs ∧ sorted.Perm rs ∧
      (sorted.Pairwise fun a b => a.toEdit.start ≤ b.toEdit.start) ∧
      (∀ r ∈ sorted, r.toEdit.stop ≤ lines.length) ∧
      ((chunks.zip rs).Pairwise Undisturbed →
        (foundRanges chunks rs).Sublist sorted ∧
        (sorted.Pairwise fun a b => a.toEdit.stop ≤ b.toEdit.start) ∧
        applyReplacements lines sorted = Edit.splice lines (sorted.map Replacement.toEdit)) := by
  obtain ⟨rs, hrs, rfl⟩ := of_computeReplacements h
  have hreplaced := replaced_of_chunkReplacements (Nat.zero_le _) hrs
  have hanswers := hreplaced.answers
  have hwithin : ∀ r ∈ rs.insertionSort (fun a b => a.1 ≤ b.1),
      r.toEdit.stop ≤ lines.length :=
    fun r hr => hreplaced.within r ((List.mem_insertionSort _).mp hr)
  refine ⟨rs, hanswers, List.perm_insertionSort _ rs, ?_, hwithin, fun hclear => ?_⟩
  · have hsorted := Edit.pairwise_sortByStart (rs.map Replacement.toEdit)
    rw [← map_toEdit_insertionSort, List.pairwise_map] at hsorted
    exact hsorted
  · have hpairs := hreplaced.pairwise_apart hclear
    have hbehind := hreplaced.pairwise_sorted hclear
    refine ⟨?_, hbehind, applyReplacements_eq_splice hwithin hbehind⟩
    refine List.sublist_insertionSort ?_ ?_
    · rw [foundRanges, List.pairwise_map]
      refine (hpairs.filter _).imp_of_mem fun {p q} hp hq hpq => ?_
      have hold : ∀ {x : UpdateFileChunk × Replacement},
          x ∈ (chunks.zip rs).filter (fun p => !p.1.oldLines.isEmpty) → x.1.oldLines ≠ [] := by
        intro x hx hnil
        simp [hnil] at hx
      exact le_trans (Nat.le_add_right _ _) (hpq.2 (hold hp) (hold hq))
    · have hsub := (List.filter_sublist (p := fun p => !p.1.oldLines.isEmpty)
        (l := chunks.zip rs)).map Prod.snd
      rwa [map_snd_zip_of_answers hanswers] at hsub

end Compute

/-- An update that replaces the first of two lines and adds a third one. -/
def replaceAndAdd : List UpdateFileChunk :=
  [⟨none, [], [['c']], false⟩, ⟨none, [['a']], [['A']], false⟩]

/-- The ranges of an addition and a replaced line before it stand apart. -/
theorem replaceAndAdd_inPlace :
    ∃ rs, List.Forall₂ (Answers [['a'], ['b']]) replaceAndAdd rs ∧
      [(0, 1, [['A']]), (2, 0, [['c']])].Perm rs ∧
      ([(0, 1, [['A']]), (2, 0, [['c']])].Pairwise
        fun a b => (Replacement.toEdit a).start ≤ (Replacement.toEdit b).start) ∧
      (∀ r ∈ [(0, 1, [['A']]), (2, 0, [['c']])], (Replacement.toEdit r).stop ≤ 2) ∧
      ((replaceAndAdd.zip rs).Pairwise Undisturbed →
        (foundRanges replaceAndAdd rs).Sublist [(0, 1, [['A']]), (2, 0, [['c']])] ∧
        ([(0, 1, [['A']]), (2, 0, [['c']])].Pairwise
          fun a b => (Replacement.toEdit a).stop ≤ (Replacement.toEdit b).start) ∧
        applyReplacements [['a'], ['b']] [(0, 1, [['A']]), (2, 0, [['c']])] =
          Edit.splice [['a'], ['b']]
            ([(0, 1, [['A']]), (2, 0, [['c']])].map Replacement.toEdit)) :=
  @computeReplacements_inPlace [['a'], ['b']] ['f'] replaceAndAdd _ rfl

/-- An addition is made at the end of the file: the ranges of an update need not be in the order
of its chunks. -/
theorem not_inPlace_addition_first :
    ¬∀ (lines : List Text) (path : Text) (chunks : List UpdateFileChunk)
      (sorted : List Replacement), computeReplacements lines path chunks = .ok sorted →
        InPlace lines chunks sorted := by
  intro h
  have hplace := h [['a'], ['b']] ['f'] replaceAndAdd [(0, 1, [['A']]), (2, 0, [['c']])] rfl
  cases (List.forall₂_cons.mp hplace.answers).1

end Ezer.ApplyPatch
