import Ezer.ApplyPatch.Replacements

/-!
# The lines that an update keeps

An update is an edit script of the original lines. Lines outside of the chunks
are kept as they are; a line at which a context line was found stays in its
place in the spelling of the patch, which is that of the file up to the normal
form in which it was found.
-/

namespace Ezer.ApplyPatch

open Ezer.Lib

/-- A line of a chunk. -/
inductive ChunkLine where
  | context (line : Text)
  | added (line : Text)
  | removed (line : Text)

/-- The old line that a line of a chunk stands for. -/
def ChunkLine.old : ChunkLine → Option Text
  | .context line => some line
  | .added _ => none
  | .removed line => some line

/-- The new line that a line of a chunk stands for. -/
def ChunkLine.new : ChunkLine → Option Text
  | .context line => some line
  | .added line => some line
  | .removed _ => none

/-- A chunk has the old and new lines that its lines stand for. -/
def Written (chunk : UpdateFileChunk) (marks : List ChunkLine) : Prop :=
  chunk.oldLines = marks.filterMap ChunkLine.old ∧ chunk.newLines = marks.filterMap ChunkLine.new

/-- The lines of a chunk when its last old line is not looked for. -/
def dropLastOld : List ChunkLine → List ChunkLine
  | [] => []
  | mark :: marks =>
    if (marks.filterMap ChunkLine.old).isEmpty then
      match mark with
      | .context line => .added line :: marks
      | .added line => .added line :: marks
      | .removed _ => marks
    else mark :: dropLastOld marks

/-- The lines of a chunk when its last new line is not put in. -/
def dropLastNew : List ChunkLine → List ChunkLine
  | [] => []
  | mark :: marks =>
    if (marks.filterMap ChunkLine.new).isEmpty then
      match mark with
      | .context line => .removed line :: marks
      | .added _ => marks
      | .removed line => .removed line :: marks
    else mark :: dropLastNew marks

/-- The lines of a chunk that is looked for again without an empty last old line. -/
def shortened (marks : List ChunkLine) : List ChunkLine :=
  if endsEmpty (marks.filterMap ChunkLine.new) then dropLastNew (dropLastOld marks)
  else dropLastOld marks

/-- The lines with which a chunk is made: its own, or those without an empty last old line. -/
def Effective (marks marks' : List ChunkLine) : Prop := marks' = marks ∨ marks' = shortened marks

/-- What becomes of a line of a file, or a line that is added to it. -/
inductive LineEdit where
  | kept (line : Text)
  | context (line spelled : Text)
  | added (line : Text)
  | removed (line spelled : Text)

namespace LineEdit

/-- The line of the old file. -/
def old : LineEdit → Option Text
  | kept line => some line
  | context line _ => some line
  | added _ => none
  | removed line _ => some line

/-- The line of the new file. -/
def new : LineEdit → Option Text
  | kept line => some line
  | context _ spelled => some spelled
  | added line => some line
  | removed _ _ => none

/-- The line of the patch. -/
def mark : LineEdit → Option ChunkLine
  | kept _ => none
  | context _ spelled => some (.context spelled)
  | added line => some (.added line)
  | removed _ spelled => some (.removed spelled)

/-- The line of the patch is that of the file up to one of the normal forms. -/
def Alike : LineEdit → Prop
  | kept _ => True
  | context line spelled => ∃ normal ∈ strictness, normal line = normal spelled
  | added _ => True
  | removed line spelled => ∃ normal ∈ strictness, normal line = normal spelled

end LineEdit

/-- The lines of a chunk beside the lines of the file at which they were found. -/
def align : List ChunkLine → List Text → List LineEdit
  | [], _ => []
  | .added line :: marks, window => .added line :: align marks window
  | .context spelled :: marks, line :: window => .context line spelled :: align marks window
  | .removed spelled :: marks, line :: window => .removed line spelled :: align marks window
  | _ :: _, [] => []

section Shortened

variable {marks : List ChunkLine}

theorem old_dropLastOld (marks : List ChunkLine) :
    (dropLastOld marks).filterMap ChunkLine.old = (marks.filterMap ChunkLine.old).dropLast := by
  fun_induction dropLastOld marks with
  | case1 => rfl
  | case2 marks hempty line | case4 marks hempty line =>
    change marks.filterMap ChunkLine.old = (line :: marks.filterMap ChunkLine.old).dropLast
    rw [List.isEmpty_iff.mp hempty, List.dropLast_singleton]
  | case3 marks hempty line =>
    change marks.filterMap ChunkLine.old = (marks.filterMap ChunkLine.old).dropLast
    rw [List.isEmpty_iff.mp hempty, List.dropLast_nil]
  | case5 mark marks hsome ih =>
    have hne : marks.filterMap ChunkLine.old ≠ [] := fun h => hsome (List.isEmpty_iff.mpr h)
    cases mark with
    | added line => exact ih
    | context line | removed line =>
      exact (congrArg (line :: ·) ih).trans (List.dropLast_cons_of_ne_nil hne).symm

theorem new_dropLastOld (marks : List ChunkLine) :
    (dropLastOld marks).filterMap ChunkLine.new = marks.filterMap ChunkLine.new := by
  fun_induction dropLastOld marks with
  | case5 mark marks hsome ih =>
    cases mark with
    | context line | added line => exact congrArg (line :: ·) ih
    | removed line => exact ih
  | _ => rfl

theorem new_dropLastNew (marks : List ChunkLine) :
    (dropLastNew marks).filterMap ChunkLine.new = (marks.filterMap ChunkLine.new).dropLast := by
  fun_induction dropLastNew marks with
  | case1 => rfl
  | case2 marks hempty line | case3 marks hempty line =>
    change marks.filterMap ChunkLine.new = (line :: marks.filterMap ChunkLine.new).dropLast
    rw [List.isEmpty_iff.mp hempty, List.dropLast_singleton]
  | case4 marks hempty line =>
    change marks.filterMap ChunkLine.new = (marks.filterMap ChunkLine.new).dropLast
    rw [List.isEmpty_iff.mp hempty, List.dropLast_nil]
  | case5 mark marks hsome ih =>
    have hne : marks.filterMap ChunkLine.new ≠ [] := fun h => hsome (List.isEmpty_iff.mpr h)
    cases mark with
    | removed line => exact ih
    | context line | added line =>
      exact (congrArg (line :: ·) ih).trans (List.dropLast_cons_of_ne_nil hne).symm

theorem old_dropLastNew (marks : List ChunkLine) :
    (dropLastNew marks).filterMap ChunkLine.old = marks.filterMap ChunkLine.old := by
  fun_induction dropLastNew marks with
  | case5 mark marks hsome ih =>
    cases mark with
    | context line | removed line => exact congrArg (line :: ·) ih
    | added line => exact ih
  | _ => rfl

theorem old_shortened (marks : List ChunkLine) :
    (shortened marks).filterMap ChunkLine.old = (marks.filterMap ChunkLine.old).dropLast := by
  unfold shortened
  split
  · rw [old_dropLastNew, old_dropLastOld]
  · rw [old_dropLastOld]

theorem new_shortened (marks : List ChunkLine) :
    (shortened marks).filterMap ChunkLine.new =
      if endsEmpty (marks.filterMap ChunkLine.new) then (marks.filterMap ChunkLine.new).dropLast
      else marks.filterMap ChunkLine.new := by
  unfold shortened
  split
  · rw [new_dropLastNew, new_dropLastOld]
  · rw [new_dropLastOld]

end Shortened

section Align

variable {marks : List ChunkLine} {window : List Text}

theorem old_align (h : window.length = (marks.filterMap ChunkLine.old).length) :
    (align marks window).filterMap LineEdit.old = window := by
  fun_induction align marks window with
  | case1 => exact (List.eq_nil_of_length_eq_zero h).symm
  | case2 line marks window ih => exact ih h
  | case3 spelled marks line window ih | case4 spelled marks line window ih =>
    exact congrArg (line :: ·) (ih (Nat.succ.inj h))
  | case5 => rfl

theorem length_ne_old {mark : ChunkLine} (hadded : ∀ line, mark ≠ .added line)
    (marks : List ChunkLine) : 0 ≠ ((mark :: marks).filterMap ChunkLine.old).length := by
  cases mark with
  | added line => exact (hadded line rfl).elim
  | context | removed => exact (Nat.succ_ne_zero _).symm

theorem new_align (h : window.length = (marks.filterMap ChunkLine.old).length) :
    (align marks window).filterMap LineEdit.new = marks.filterMap ChunkLine.new := by
  fun_induction align marks window with
  | case1 => rfl
  | case2 line marks window ih => exact congrArg (line :: ·) (ih h)
  | case3 spelled marks line window ih => exact congrArg (spelled :: ·) (ih (Nat.succ.inj h))
  | case4 spelled marks line window ih => exact ih (Nat.succ.inj h)
  | case5 mark marks hadded => exact (length_ne_old hadded marks h).elim

theorem mark_align (h : window.length = (marks.filterMap ChunkLine.old).length) :
    (align marks window).filterMap LineEdit.mark = marks := by
  fun_induction align marks window with
  | case1 => rfl
  | case2 line marks window ih => exact congrArg (ChunkLine.added line :: ·) (ih h)
  | case3 spelled marks line window ih =>
    exact congrArg (ChunkLine.context spelled :: ·) (ih (Nat.succ.inj h))
  | case4 spelled marks line window ih =>
    exact congrArg (ChunkLine.removed spelled :: ·) (ih (Nat.succ.inj h))
  | case5 mark marks hadded => exact (length_ne_old hadded marks h).elim

theorem alike_align {normal : Text → Text} (hnormal : normal ∈ strictness)
    (h : window.map normal = (marks.filterMap ChunkLine.old).map normal) :
    ∀ e ∈ align marks window, e.Alike := by
  fun_induction align marks window with
  | case1 | case5 => exact fun _ he => absurd he List.not_mem_nil
  | case2 line marks window ih => exact List.forall_mem_cons.mpr ⟨trivial, ih h⟩
  | case3 spelled marks line window ih | case4 spelled marks line window ih =>
    obtain ⟨hline, hrest⟩ := List.cons.inj h
    exact List.forall_mem_cons.mpr ⟨⟨normal, hnormal, hline⟩, ih hrest⟩

end Align

/-- The script of a file: lines outside of the ranges are kept, ranges have their own scripts. -/
def scriptFrom (ls : List Text) : ℕ → List (Replacement × List LineEdit) → List LineEdit
  | pos, [] => (ls.drop pos).map LineEdit.kept
  | pos, (r, piece) :: pieces =>
    ((ls.take r.toEdit.start).drop pos).map LineEdit.kept ++ piece ++
      scriptFrom ls r.toEdit.stop pieces

/-- A script turns the lines of a range into the lines of its replacement. -/
structure Fits (ls : List Text) (r : Replacement) (piece : List LineEdit) : Prop where
  old : piece.filterMap LineEdit.old = (ls.take r.toEdit.stop).drop r.toEdit.start
  new : piece.filterMap LineEdit.new = r.2.2
  alike : ∀ e ∈ piece, e.Alike

section Script

variable {ls : List Text} {pos stop : ℕ} {pieces : List (Replacement × List LineEdit)}

theorem old_kept (ls : List Text) : (ls.map LineEdit.kept).filterMap LineEdit.old = ls := by
  rw [List.filterMap_map]
  exact List.filterMap_some

theorem new_kept (ls : List Text) : (ls.map LineEdit.kept).filterMap LineEdit.new = ls := by
  rw [List.filterMap_map]
  exact List.filterMap_some

theorem mark_kept (ls : List Text) : (ls.map LineEdit.kept).filterMap LineEdit.mark = [] := by
  rw [List.filterMap_map, List.filterMap_eq_nil_iff]
  exact fun _ _ => rfl

theorem old_scriptFrom (hfits : ∀ p ∈ pieces, Fits ls p.1 p.2)
    (h : Edit.Ordered stop pos (pieces.map fun p => p.1.toEdit)) :
    (scriptFrom ls pos pieces).filterMap LineEdit.old = ls.drop pos := by
  induction pieces generalizing pos with
  | nil => exact old_kept _
  | cons p pieces ih =>
    rw [List.forall_mem_cons] at hfits
    obtain ⟨hstart, hrange, hrest⟩ := h
    have hcut (m n : ℕ) (hle : m ≤ n) : (ls.take n).drop m ++ ls.drop n = ls.drop m := by
      have hsplit := @Edit.spliceFrom_eq_append _ ls [] n m n le_rfl hle
      exact hsplit.symm
    rw [scriptFrom, List.filterMap_append, List.filterMap_append, old_kept, hfits.1.old,
      ih hfits.2 hrest, List.append_assoc, hcut _ _ hrange, hcut _ _ hstart]

theorem new_scriptFrom (hfits : ∀ p ∈ pieces, Fits ls p.1 p.2) :
    (scriptFrom ls pos pieces).filterMap LineEdit.new =
      Edit.spliceFrom ls pos (pieces.map fun p => p.1.toEdit) := by
  induction pieces generalizing pos with
  | nil => exact new_kept _
  | cons p pieces ih =>
    rw [List.forall_mem_cons] at hfits
    rw [scriptFrom, List.filterMap_append, List.filterMap_append, new_kept, hfits.1.new,
      ih hfits.2]
    rfl

theorem mark_scriptFrom (ls : List Text) (pos : ℕ) (pieces : List (Replacement × List LineEdit)) :
    (scriptFrom ls pos pieces).filterMap LineEdit.mark =
      (pieces.map fun p => p.2.filterMap LineEdit.mark).flatten := by
  induction pieces generalizing pos with
  | nil => exact mark_kept _
  | cons p pieces ih =>
    rw [scriptFrom, List.filterMap_append, List.filterMap_append, mark_kept, ih, List.map_cons,
      List.flatten_cons, List.nil_append]

theorem alike_scriptFrom (hfits : ∀ p ∈ pieces, Fits ls p.1 p.2) :
    ∀ e ∈ scriptFrom ls pos pieces, e.Alike := by
  have hkept (kept : List Text) : ∀ e ∈ kept.map LineEdit.kept, e.Alike := by
    intro e he
    obtain ⟨line, -, rfl⟩ := List.mem_map.mp he
    trivial
  induction pieces generalizing pos with
  | nil => exact hkept _
  | cons p pieces ih =>
    rw [List.forall_mem_cons] at hfits
    intro e he
    rw [scriptFrom, List.mem_append, List.mem_append] at he
    rcases he with (he | he) | he
    · exact hkept _ e he
    · exact hfits.1.alike e he
    · exact ih hfits.2 e he

end Script

section Chunks

variable {lines : List Text} {chunk : UpdateFileChunk} {marks : List ChunkLine} {r : Replacement}

theorem window_of_foundAt {pattern : List Text} {start : ℕ} (h : FoundAt lines pattern start) :
    ((lines.take (start + pattern.length)).drop start).length = pattern.length ∧
      ∃ normal ∈ strictness, ((lines.take (start + pattern.length)).drop start).map normal =
        pattern.map normal := by
  obtain ⟨hlength, normal, hnormal, hmatch⟩ := h
  rw [List.drop_take, Nat.add_sub_cancel_left]
  refine ⟨?_, normal, hnormal, of_decide_eq_true hmatch⟩
  rw [List.length_take, List.length_drop]
  omega

/-- Lines of a chunk that are found have a script. -/
theorem exists_fits_of_foundAt {start : ℕ} {newLines : List Text}
    (h : FoundAt lines (marks.filterMap ChunkLine.old) start)
    (hnew : marks.filterMap ChunkLine.new = newLines) :
    ∃ piece, Fits lines (start, (marks.filterMap ChunkLine.old).length, newLines) piece ∧
      piece.filterMap LineEdit.mark = marks := by
  obtain ⟨hlength, normal, hnormal, hmatch⟩ := window_of_foundAt h
  exact ⟨align marks _, ⟨old_align hlength, (new_align hlength).trans hnew,
    alike_align hnormal hmatch⟩, mark_align hlength⟩

/-- The replacement of a chunk has a script with the lines of the chunk, or with those without an
empty last old line. -/
theorem Answers.exists_fits (h : Answers lines chunk r) (hmarks : Written chunk marks) :
    ∃ piece, Fits lines r piece ∧ Effective marks (piece.filterMap LineEdit.mark) := by
  obtain ⟨hold, hnew⟩ := hmarks
  cases h with
  | addition hnil =>
    have hempty : marks.filterMap ChunkLine.old = [] := hold.symm.trans hnil
    refine ⟨align marks [], ⟨?_, ?_, ?_⟩, Or.inl (mark_align (by rw [hempty]))⟩
    · rw [old_align (by rw [hempty])]
      exact (List.drop_eq_nil_of_le (List.length_take_le _ _)).symm
    · rw [new_align (by rw [hempty]), hnew]
    · exact @alike_align _ _ id List.mem_cons_self (by rw [hempty])
  | found hne hfound =>
    rw [hold] at hfound ⊢
    obtain ⟨piece, hfits, hpiece⟩ := exists_fits_of_foundAt hfound hnew.symm
    exact ⟨piece, hfits, Or.inl hpiece⟩
  | foundShort hempty hfound =>
    rw [hold, ← old_shortened] at hfound ⊢
    have hshort : (shortened marks).filterMap ChunkLine.new =
        if endsEmpty chunk.newLines then chunk.newLines.dropLast else chunk.newLines := by
      rw [new_shortened, hnew]
    obtain ⟨piece, hfits, hpiece⟩ := exists_fits_of_foundAt hfound hshort
    exact ⟨piece, hfits, Or.inr hpiece⟩

theorem exists_pieces {chunks : List UpdateFileChunk} {rs : List Replacement}
    {marks : List (List ChunkLine)} (h : List.Forall₂ (Answers lines) chunks rs)
    (hmarks : List.Forall₂ Written chunks marks) :
    ∃ pieces : List (Replacement × List LineEdit), pieces.map Prod.fst = rs ∧
      (∀ p ∈ pieces, Fits lines p.1 p.2) ∧
      List.Forall₂ Effective marks (pieces.map fun p => p.2.filterMap LineEdit.mark) := by
  induction h generalizing marks with
  | nil =>
    cases hmarks
    exact ⟨[], rfl, fun _ hp => absurd hp List.not_mem_nil, .nil⟩
  | cons hanswers hrest ih =>
    cases hmarks with
    | cons hwritten hmarks =>
      obtain ⟨piece, hfits, heffective⟩ := hanswers.exists_fits hwritten
      obtain ⟨pieces, rfl, hpieces, hmarks⟩ := ih hmarks
      exact ⟨(_, piece) :: pieces, rfl, List.forall_mem_cons.mpr ⟨hfits, hpieces⟩,
        .cons heffective hmarks⟩

end Chunks

section Parsed

variable {chunk chunk' : UpdateFileChunk} {marks marks' : List ChunkLine}

theorem Written.concat {mark : ChunkLine} (h : Written chunk marks)
    (hold : chunk'.oldLines = chunk.oldLines ++ mark.old.toList)
    (hnew : chunk'.newLines = chunk.newLines ++ mark.new.toList) :
    Written chunk' (marks ++ [mark]) := by
  constructor
  · rw [hold, h.1, List.filterMap_append]
    cases mark <;> rfl
  · rw [hnew, h.2, List.filterMap_append]
    cases mark <;> rfl

end Parsed

/-- The lines of a file without the empty one behind the last newline. -/
def originalLines (content : Text) : List Text :=
  let split := content.splitOn '\n'
  if endsEmpty split then split.dropLast else split

/-- The text of some lines that ends in a newline. -/
def endedText (lines : List Text) : Text :=
  joinLines (if endsEmpty lines then lines else lines ++ [[]])

section Derive

variable {content path contents : Text} {chunks : List UpdateFileChunk}
  {marks : List (List ChunkLine)}

/-- An update is an edit script of the file: when no two chunks disturb each other, the lines
outside of the chunks are kept, a line at which a context line was found stays in its place in the
spelling of the patch, and the rest are the lines that the chunks add and remove. -/
theorem deriveNewContents_script (hmarks : List.Forall₂ Written chunks marks)
    (h : deriveNewContents content path chunks = .ok contents) :
    ∃ rs, chunkReplacements (originalLines content) path chunks 0 = .ok rs ∧
      ((chunks.zip rs).Pairwise Undisturbed →
        ∃ script : List LineEdit,
          script.filterMap LineEdit.old = originalLines content ∧
          contents = endedText (script.filterMap LineEdit.new) ∧
          (∀ e ∈ script, e.Alike) ∧
          ∃ effective sorted : List (List ChunkLine), List.Forall₂ Effective marks effective ∧
            sorted.Perm effective ∧ script.filterMap LineEdit.mark = sorted.flatten) := by
  obtain ⟨replacements, hcompute, rfl⟩ : ∃ replacements,
      computeReplacements (originalLines content) path chunks = .ok replacements ∧
        endedText (applyReplacements (originalLines content) replacements) = contents := by
    unfold deriveNewContents at h
    dsimp only at h
    split at h
    · cases h
    · rename_i replacements hcompute
      exact ⟨replacements, hcompute, Except.ok.inj h⟩
  obtain ⟨rs, hrs, rfl⟩ := of_computeReplacements hcompute
  refine ⟨rs, hrs, fun hclear => ?_⟩
  have hreplaced := replaced_of_chunkReplacements (Nat.zero_le _) hrs
  have hbehind := hreplaced.pairwise_sorted hclear
  obtain ⟨pieces, rfl, hpieces, heffective⟩ := exists_pieces hreplaced.answers hmarks
  let sorted := pieces.insertionSort fun p q => p.1.1 ≤ q.1.1
  have hperm : sorted.Perm pieces := List.perm_insertionSort _ pieces
  have hfst : sorted.map Prod.fst = (pieces.map Prod.fst).insertionSort fun a b => a.1 ≤ b.1 :=
    List.map_insertionSort _ _ _ _ fun _ _ _ _ => Iff.rfl
  have hedits : sorted.map (fun p => p.1.toEdit) = (sorted.map Prod.fst).map Replacement.toEdit := by
    rw [List.map_map]
    rfl
  have hfits : ∀ p ∈ sorted, Fits (originalLines content) p.1 p.2 :=
    fun p hp => hpieces p (hperm.subset hp)
  rw [← hfst] at hbehind
  have hwithin : ∀ r ∈ sorted.map Prod.fst, r.toEdit.stop ≤ (originalLines content).length :=
    fun r hr => hreplaced.within r ((hperm.map Prod.fst).subset hr)
  have hordered : Edit.Ordered (originalLines content).length 0
      (sorted.map fun p => p.1.toEdit) := by
    rw [hedits, Edit.ordered_iff]
    refine ⟨Nat.zero_le _, ?_, List.pairwise_map.mpr hbehind⟩
    intro e he
    obtain ⟨r, hr, rfl⟩ := List.mem_map.mp he
    exact ⟨Nat.zero_le _, Nat.le_add_right _ _, hwithin r hr⟩
  refine ⟨scriptFrom (originalLines content) 0 sorted, ?_, ?_, alike_scriptFrom hfits, _, _,
    heffective, hperm.map _, mark_scriptFrom _ _ _⟩
  · rw [old_scriptFrom hfits hordered, List.drop_zero]
  · rw [new_scriptFrom hfits, hedits, ← hfst, applyReplacements_eq_splice hwithin hbehind]
    rfl

end Derive

/-- Replace a line behind a line of context. -/
def replaceBehind : UpdateFileChunk := ⟨none, [['a'], ['b']], [['a'], ['c']], false⟩

/-- The lines of a chunk that replaces a line behind a line of context. -/
def replaceBehindLines : List ChunkLine := [.context ['a'], .removed ['b'], .added ['c']]

theorem written_replaceBehind : List.Forall₂ Written [replaceBehind] [replaceBehindLines] :=
  .cons ⟨rfl, rfl⟩ .nil

/-- The line of context is found at a line that ends in a space, which is lost. -/
theorem deriveNewContents_replaceBehind :
    deriveNewContents ['a', ' ', '\n', 'b', '\n'] ['f'] [replaceBehind] =
      .ok ['a', '\n', 'c', '\n'] := by
  decide

/-- The script of an update that replaces a line behind a line of context. -/
theorem replaceBehind_script :
    ∃ rs, chunkReplacements (originalLines ['a', ' ', '\n', 'b', '\n']) ['f'] [replaceBehind] 0 =
        .ok rs ∧
      (([replaceBehind].zip rs).Pairwise Undisturbed →
        ∃ script : List LineEdit,
          script.filterMap LineEdit.old = originalLines ['a', ' ', '\n', 'b', '\n'] ∧
          ['a', '\n', 'c', '\n'] = endedText (script.filterMap LineEdit.new) ∧
          (∀ e ∈ script, e.Alike) ∧
          ∃ effective sorted : List (List ChunkLine),
            List.Forall₂ Effective [replaceBehindLines] effective ∧
            sorted.Perm effective ∧ script.filterMap LineEdit.mark = sorted.flatten) :=
  deriveNewContents_script written_replaceBehind deriveNewContents_replaceBehind

/-- A line that no chunk removes need not survive: with as many lines taken away as the patch
removes, what is left of the file need not be in the new file. -/
theorem not_unremoved_survive :
    ¬∀ (content path contents : Text) (chunks : List UpdateFileChunk)
      (marks : List (List ChunkLine)), List.Forall₂ Written chunks marks →
      deriveNewContents content path chunks = .ok contents →
      ∃ kept : List Text, kept.Sublist (originalLines content) ∧
        (originalLines content).length ≤
          kept.length + marks.flatten.countP (fun mark => mark.new.isNone) ∧
        kept.Sublist (contents.splitOn '\n') := by
  intro h
  obtain ⟨kept, hold, hlength, hnew⟩ := h _ _ _ _ _ written_replaceBehind
    deriveNewContents_replaceBehind
  have hlines : originalLines ['a', ' ', '\n', 'b', '\n'] = [['a', ' '], ['b']] := by decide
  have hcontents : ['a', '\n', 'c', '\n'].splitOn '\n' = [['a'], ['c'], []] := by decide
  rw [hlines] at hold hlength
  rw [hcontents] at hnew
  cases kept with
  | nil => exact absurd hlength (by decide)
  | cons line kept =>
    have hline := hold.subset List.mem_cons_self
    have hline' := hnew.subset List.mem_cons_self
    simp only [List.mem_cons, List.not_mem_nil, or_false] at hline hline'
    rcases hline with rfl | rfl <;> exact absurd hline' (by decide)

end Ezer.ApplyPatch
