import Ezer.PagerDiff.EditRows

/-!
# Stitching hunks of one file

Hunks of edits that follow one another are folded into one while line numbers
of the text after the last of them can describe them together. A hunk is
truthful between two texts; folding two truthful ones gives a truthful one as
long as lines deleted at the end of the second are numbered where they stood.
-/

namespace Ezer.PagerDiff

open Ezer.Lib Ezer.HunkTracker

/-- The first and the last line number of the rows that are not deleted. -/
def renderRange (hunk : DiffHunk) : Option (ℕ × ℕ) :=
  hunk.foldl (fun range line =>
    if line.tag = .delete then range
    else
      match range with
      | none => some (line.ln, line.ln)
      | some (least, most) => some (min least line.ln, max most line.ln)) none

/-- The position of the row that shows a line of the new text. -/
def renderPos (hunk : DiffHunk) (ln : ℕ) : Option ℕ :=
  hunk.findIdx? fun l => l.tag ≠ .delete && l.ln = ln

/-- A text without the line terminators at its end. -/
def trimmed (text : Text) : Text := (text.reverse.dropWhile (· ∈ ['\r', '\n'])).reverse

/-- Rows behind those of a hunk, if the rows shown are numbered on without a gap. -/
def spliceTail : DiffHunk → ℕ → DiffHunk → Option DiffHunk
  | out, _, [] => some out
  | out, maxLn, rest :: tail =>
    if rest.tag ≠ .delete then
      if rest.ln ≠ maxLn + 1 then none else spliceTail (out ++ [rest]) rest.ln tail
    else spliceTail (out ++ [rest]) maxLn tail

/-- The row at which a hunk shows a line of the new text, if it shows the given text there. -/
def shownAt (out : DiffHunk) (row : DiffLine) : Option (ℕ × DiffLine) := do
  let pos ← renderPos out row.ln
  let shown ← out[pos]?
  if trimmed shown.text = trimmed row.text then some (pos, shown) else none

/-- The rows of a hunk folded into an earlier one that shows lines up to a number. -/
def stitchRows : DiffHunk → ℕ → DiffHunk → Option DiffHunk
  | out, _, [] => some out
  | out, maxLn, row :: rows =>
    if row.ln > maxLn then spliceTail out maxLn (row :: rows)
    else
      match row.tag, rows with
      | .equal, rows => (shownAt out row).bind fun _ => stitchRows out maxLn rows
      | .delete, [] => none
      | .delete, next :: rows =>
        if next.tag ≠ .insert ∨ next.ln ≠ row.ln then none
        else
          (shownAt out row).bind fun (pos, shown) =>
            match shown.tag with
            | .equal => stitchRows ((out.set pos row).insertIdx (pos + 1) next) maxLn rows
            | .insert => stitchRows (out.set pos next) maxLn rows
            -- No deleted row shows a line.
            | .delete => none
      | .insert, _ => none

/-- A hunk folded into the one of the edit before it. -/
def stitchHunkPair (a b : DiffHunk) : Option DiffHunk := do
  let (aMin, aMax) ← renderRange a
  let (bMin, _) ← renderRange b
  if bMin < aMin ∨ bMin > aMax + 1 then none else stitchRows a aMax b

/-- A hunk folded into the last one before it, or put behind it. -/
def stitchNext (out : List DiffHunk) (hunk : DiffHunk) : List DiffHunk :=
  match out.getLast? with
  | none => out ++ [hunk]
  | some last =>
    match stitchHunkPair last hunk with
    | some stitched => out.dropLast ++ [stitched]
    | none => out ++ [hunk]

/-- The hunks of consecutive edits of a file with those folded together that can be. -/
def stitchOverlappingHunks (hunks : List DiffHunk) : List DiffHunk := hunks.foldl stitchNext []

/-- The rows of a side show the lines of a block up to their terminators. -/
def Carries (side : Side) (hunk : DiffHunk) (block : List Text) : Prop :=
  (side.rows hunk).map (fun row => trimmed row.text) = block.map trimmed

/-- A hunk tells how one text became another: its rows are the block that was replaced and the
block in its place, whose lines are numbered, and around them the texts agree. -/
def Truthful (before after : List Text) (hunk : DiffHunk) : Prop :=
  ∃ front old new back, before = front ++ old ++ back ∧ after = front ++ new ++ back ∧
    Carries .old hunk old ∧ Carries .new hunk new ∧
    Side.new.numbers hunk = List.range' (front.length + 1) new.length

/-- Rows deleted behind the last row that is shown are numbered no further than the line after
it. -/
def TailPlaced (hunk : DiffHunk) : Prop :=
  ∀ kept row tail, hunk = kept ++ row :: tail → row.tag ≠ .delete →
    (∀ deleted ∈ tail, deleted.tag = .delete) → ∀ deleted ∈ tail, deleted.ln ≤ row.ln + 1

/-- Hunks describe how a file went from one of its states to a later one, each of them some edits
in a row. -/
inductive Describes (files : ℕ → List Text) (first : ℕ) : List DiffHunk → ℕ → Prop where
  | nil : Describes files first [] first
  | concat {out : List DiffHunk} {n : ℕ} {hunk : DiffHunk} (k : ℕ) :
      Describes files first out n → Truthful (files n) (files (n + k + 1)) hunk →
        Describes files first (out ++ [hunk]) (n + k + 1)

section Equations

variable {out rows : DiffHunk} {row next : DiffLine} {maxLn : ℕ}

theorem stitchRows_of_gt (hrow : row.ln > maxLn) :
    stitchRows out maxLn (row :: rows) = spliceTail out maxLn (row :: rows) := by
  cases rows with
  | nil | cons =>
    unfold stitchRows
    exact if_pos hrow

theorem stitchRows_equal (hrow : ¬ row.ln > maxLn) (htag : row.tag = .equal) :
    stitchRows out maxLn (row :: rows) =
      (shownAt out row).bind fun _ => stitchRows out maxLn rows := by
  cases rows with
  | nil | cons =>
    rw [stitchRows.eq_def]
    simp only [hrow, htag, if_false]

theorem stitchRows_insert (hrow : ¬ row.ln > maxLn) (htag : row.tag = .insert) :
    stitchRows out maxLn (row :: rows) = none := by
  cases rows with
  | nil | cons =>
    rw [stitchRows.eq_def]
    simp only [hrow, htag, if_false]

theorem stitchRows_delete_nil (hrow : ¬ row.ln > maxLn) (htag : row.tag = .delete) :
    stitchRows out maxLn [row] = none := by
  rw [stitchRows.eq_def]
  simp only [hrow, htag, if_false]

theorem stitchRows_delete (hrow : ¬ row.ln > maxLn) (htag : row.tag = .delete) :
    stitchRows out maxLn (row :: next :: rows) =
      if next.tag ≠ .insert ∨ next.ln ≠ row.ln then none
      else
        (shownAt out row).bind fun (pos, shown) =>
          match shown.tag with
          | .equal => stitchRows ((out.set pos row).insertIdx (pos + 1) next) maxLn rows
          | .insert => stitchRows (out.set pos next) maxLn rows
          | .delete => none := by
  rw [stitchRows.eq_def]
  simp only [hrow, htag, if_false]

end Equations

section Rows

variable {side : Side} {hunk front back : DiffHunk} {block block' : List Text}

theorem Side.rows_append (side : Side) (front back : DiffHunk) :
    side.rows (front ++ back) = side.rows front ++ side.rows back := List.filter_append ..

theorem Side.rows_cons (side : Side) (row : DiffLine) (hunk : DiffHunk) :
    side.rows (row :: hunk) = if side.shows row.tag then row :: side.rows hunk else side.rows hunk :=
  List.filter_cons ..

theorem Carries.length (h : Carries side hunk block) : (side.rows hunk).length = block.length := by
  have hlen := congrArg List.length h
  rwa [List.length_map, List.length_map] at hlen

theorem Carries.append (hfront : Carries side front block) (hback : Carries side back block') :
    Carries side (front ++ back) (block ++ block') := by
  unfold Carries at *
  rw [Side.rows_append, List.map_append, List.map_append, hfront, hback]

/-- Where the block is cut, the rows are. -/
theorem Carries.exists_append (h : Carries side hunk (block ++ block')) :
    ∃ front back, hunk = front ++ back ∧ Carries side front block ∧ Carries side back block' := by
  unfold Carries Side.rows at h
  rw [List.map_append] at h
  obtain ⟨rows, rows', hrows, hfront, hback⟩ := List.map_eq_append_iff.mp h
  obtain ⟨front, back, rfl, hfront', hback'⟩ := List.filter_eq_append_iff.mp hrows
  refine ⟨front, back, rfl, ?_, ?_⟩
  · rw [Carries, Side.rows, hfront', hfront]
  · rw [Carries, Side.rows, hback', hback]

/-- The first line of the block is shown by the first row of the side. -/
theorem Carries.exists_cons {line : Text} (h : Carries side hunk (line :: block)) :
    ∃ front row back, hunk = front ++ row :: back ∧ (∀ r ∈ front, side.shows r.tag = false) ∧
      side.shows row.tag = true ∧ trimmed row.text = trimmed line ∧ Carries side back block := by
  unfold Carries Side.rows at h
  rw [List.map_cons, List.map_eq_cons_iff] at h
  obtain ⟨row, rows, hrows, htext, hrest⟩ := h
  obtain ⟨front, back, rfl, hfront, hshows, hback⟩ := List.filter_eq_cons_iff.mp hrows
  refine ⟨front, row, back, rfl, fun r hr => Bool.eq_false_iff.mpr (hfront r hr), hshows, htext, ?_⟩
  rw [Carries, Side.rows, hback, hrest]

theorem Carries.cons {row : DiffLine} {line : Text} (hshows : side.shows row.tag = true)
    (htext : trimmed row.text = trimmed line) (h : Carries side hunk block) :
    Carries side (row :: hunk) (line :: block) := by
  unfold Carries at *
  rw [Side.rows_cons, if_pos hshows, List.map_cons, List.map_cons, htext, h]

theorem Carries.skip {row : DiffLine} (hshows : side.shows row.tag = false)
    (h : Carries side hunk block) : Carries side (row :: hunk) block := by
  unfold Carries at *
  rwa [Side.rows_cons, if_neg (Bool.eq_false_iff.mp hshows)]

/-- What a row adds to a side is the first line of the block, or nothing. -/
theorem Carries.of_cons {row : DiffLine} (hshows : side.shows row.tag = true)
    (h : Carries side (row :: hunk) block) :
    ∃ line rest, block = line :: rest ∧ trimmed row.text = trimmed line ∧ Carries side hunk rest := by
  unfold Carries at h
  rw [Side.rows_cons, if_pos hshows, List.map_cons] at h
  obtain ⟨line, rest, rfl, htext, hrest⟩ := List.map_eq_cons_iff.mp h.symm
  exact ⟨line, rest, rfl, htext.symm, hrest.symm⟩

theorem Carries.of_skip {row : DiffLine} (hshows : side.shows row.tag = false)
    (h : Carries side (row :: hunk) block) : Carries side hunk block := by
  unfold Carries at *
  rwa [Side.rows_cons, if_neg (Bool.eq_false_iff.mp hshows)] at h

theorem Carries.nil : Carries side [] [] := rfl

theorem Carries.eq_nil (h : Carries side [] block) : block = [] := by
  have hlen := h.length
  exact List.eq_nil_of_length_eq_zero hlen.symm

/-- The block is cut where the rows are. -/
theorem Carries.of_append (h : Carries side (front ++ back) block) :
    ∃ block₁ block₂, block = block₁ ++ block₂ ∧ Carries side front block₁ ∧
      Carries side back block₂ := by
  unfold Carries at h
  rw [Side.rows_append, List.map_append] at h
  obtain ⟨block₁, block₂, rfl, hfront, hback⟩ := List.map_eq_append_iff.mp h.symm
  exact ⟨block₁, block₂, rfl, hfront.symm, hback.symm⟩

end Rows

section Rendering

theorem Side.mem_numbers {hunk : DiffHunk} {ln : ℕ} :
    ln ∈ Side.new.numbers hunk ↔ ∃ row ∈ hunk, row.tag ≠ .delete ∧ row.ln = ln := by
  simp [Side.numbers, Side.rows, Side.shows, Side.number, and_assoc]

/-- A range with one more number in it. -/
def widen (range : Option (ℕ × ℕ)) (ln : ℕ) : Option (ℕ × ℕ) :=
  match range with
  | none => some (ln, ln)
  | some (least, most) => some (min least ln, max most ln)

theorem renderRange_eq (hunk : DiffHunk) :
    renderRange hunk = (Side.new.numbers hunk).foldl widen none := by
  unfold renderRange
  generalize (none : Option (ℕ × ℕ)) = range
  induction hunk generalizing range with
  | nil => rfl
  | cons row hunk ih =>
    rw [List.foldl_cons, ih, Side.numbers_cons]
    by_cases hdelete : row.tag = .delete
    · have hshows : Side.new.shows row.tag = false := by simp [Side.shows, hdelete]
      rw [if_pos hdelete, hshows, if_neg Bool.false_ne_true]
    · have hshows : Side.new.shows row.tag = true := by simp [Side.shows, hdelete]
      rw [if_neg hdelete, hshows, if_pos rfl, List.foldl_cons]
      rfl

/-- Rows numbered without a gap cover the numbers from the first to the last. -/
theorem renderRange_of_numbers {hunk : DiffHunk} {start count : ℕ}
    (h : Side.new.numbers hunk = List.range' start (count + 1)) :
    renderRange hunk = some (start, start + count) := by
  have hwiden : ∀ count most, start ≤ most →
      (List.range' (most + 1) count).foldl widen (some (start, most)) = some (start, most + count) := by
    intro count
    induction count with
    | zero => exact fun _ _ => rfl
    | succ count ih =>
      intro most hle
      have hnext : widen (some (start, most)) (most + 1) = some (start, most + 1) := by
        simp only [widen]
        rw [Nat.min_eq_left (by omega), Nat.max_eq_right (by omega)]
      rw [List.range'_succ, List.foldl_cons, hnext, ih (most + 1) (by omega), Nat.add_assoc,
        Nat.add_comm 1]
  rw [renderRange_eq, h, List.range'_succ, List.foldl_cons]
  exact hwiden count start le_rfl

theorem numbers_ne_nil_of_renderRange {hunk : DiffHunk} {range : ℕ × ℕ}
    (h : renderRange hunk = some range) : Side.new.numbers hunk ≠ [] := by
  intro hnil
  rw [renderRange_eq, hnil] at h
  cases h

/-- The first row that shows a line is found. -/
theorem renderPos_append {front back : DiffHunk} {row : DiffLine} (hrow : row.tag ≠ .delete)
    (hfront : row.ln ∉ Side.new.numbers front) :
    renderPos (front ++ row :: back) row.ln = some front.length := by
  have hnone : front.findIdx? (fun l => l.tag ≠ .delete && l.ln = row.ln) = none := by
    rw [List.findIdx?_eq_none_iff]
    intro r hr
    by_contra hfound
    have hboth := Bool.and_eq_true_iff.mp (Bool.not_eq_false _ ▸ hfound)
    exact hfront (Side.mem_numbers.mpr ⟨r, hr, of_decide_eq_true hboth.1, of_decide_eq_true hboth.2⟩)
  have hfound : (row.tag ≠ .delete && row.ln = row.ln : Bool) = true := by simp [hrow]
  rw [renderPos, List.findIdx?_append, hnone, List.findIdx?_cons, hfound]
  simp

/-- What is spliced in is the rest of the rows, numbered on without a gap. -/
theorem eq_of_spliceTail {out rest hunk : DiffHunk} {maxLn : ℕ}
    (h : spliceTail out maxLn rest = some hunk) :
    hunk = out ++ rest ∧
      ∀ ln ∈ (Side.new.numbers rest).head?, ln = maxLn + 1 := by
  induction rest generalizing out maxLn with
  | nil =>
    cases h
    exact ⟨(List.append_nil _).symm, nofun⟩
  | cons row rest ih =>
    unfold spliceTail at h
    by_cases hdelete : row.tag = .delete
    · rw [if_neg (not_not.mpr hdelete)] at h
      obtain ⟨hhunk, hnext⟩ := ih h
      have hshows : Side.new.shows row.tag = false := by simp [Side.shows, hdelete]
      refine ⟨by rw [hhunk, List.append_assoc, List.singleton_append], ?_⟩
      rwa [Side.numbers_cons, hshows, if_neg Bool.false_ne_true]
    · rw [if_pos hdelete] at h
      split at h
      · cases h
      · rename_i hln
        obtain ⟨hhunk, -⟩ := ih h
        have hshows : Side.new.shows row.tag = true := by simp [Side.shows, hdelete]
        refine ⟨by rw [hhunk, List.append_assoc, List.singleton_append], ?_⟩
        rw [Side.numbers_cons, hshows, if_pos rfl]
        intro ln hmem
        cases hmem
        exact not_not.mp hln

end Rendering

end Ezer.PagerDiff
