import Ezer.PagerDiff.Hunks

/-!
# The rows of an edit against its strings

The rows of an edit that are not inserted show its old string behind the text
before it, those that are not deleted its new string, and the numbers of either
side follow one another. A prefix is applied once to each kind of row, while a
row that is equal stands on both sides: it is shown right when the script
begins in one of a few ways.
-/

namespace Ezer.PagerDiff

open Ezer.Lib Ezer.HunkTracker Ezer.SearchReplace

/-- The text before an edit, or behind it. -/
inductive Side where
  | old
  | new

namespace Side

/-- Whether a row is one of a side. -/
def shows : Side → ChangeTag → Bool
  | .old, tag => tag ≠ .insert
  | .new, tag => tag ≠ .delete

/-- The number of a row on a side. -/
def number : Side → DiffLine → ℕ
  | .old => DiffLine.lo
  | .new => DiffLine.ln

/-- The number the next row of a side has. -/
def next : Side → Cursor → ℕ
  | .old => Cursor.lo
  | .new => Cursor.ln

/-- The lines of a script that are those of a side. -/
def lines : Side → List Change → List Text
  | .old => oldSide
  | .new => newSide

/-- The rows of a side. -/
def rows (side : Side) (hunk : DiffHunk) : DiffHunk := hunk.filter fun row => side.shows row.tag

/-- The numbers of the rows of a side. -/
def numbers (side : Side) (hunk : DiffHunk) : List ℕ := (side.rows hunk).map side.number

/-- The text of the rows of a side. -/
def text (side : Side) (hunk : DiffHunk) : Text := ((side.rows hunk).map DiffLine.text).flatten

/-- The string an edit has on a side. -/
def string : Side → SearchReplaceEditDetail → Text
  | .old => SearchReplaceEditDetail.oldString
  | .new => SearchReplaceEditDetail.newString

/-- The line an edit starts at on a side. -/
def line : Side → SearchReplaceEditDetail → ℕ
  | .old => SearchReplaceEditDetail.oldLine
  | .new => SearchReplaceEditDetail.newLine

end Side

/-- The rows of an edit show a side: the text of the diff is the prefix and the string, and the
numbers of all rows follow one another, those of the diff from the line of the edit. -/
structure ShowsSide (fromLines : FromLines) (edit : SearchReplaceEditDetail) (side : Side) : Prop where
  text_eq : side.text (editRows fromLines edit).1 = edit.linePrefix ++ side.string edit
  numbers_eq : ∃ first, first + (rowsBefore edit).length = side.line edit ∧
    side.numbers (allRows fromLines edit) =
      List.range' first (side.rows (allRows fromLines edit)).length

/-- What is shown of an edit is true. -/
structure ShowsEdit (fromLines : FromLines) (edit : SearchReplaceEditDetail) : Prop where
  sides : ∀ side, ShowsSide fromLines edit side
  changes : ∀ hunk, trimHunk (allRows fromLines edit) = some hunk →
    ShowsChanges (allRows fromLines edit) hunk

/-- The ways in which a script begins when the prefix is put where it belongs. -/
def PrefixFits (linePrefix : Text) (script : List Change) : Prop :=
  linePrefix = [] ∨
    match script with
    | [] => False
    | ⟨.equal, _⟩ :: rest => ∀ change ∈ rest, change.tag ≠ .insert
    | ⟨.delete, _⟩ :: rest => ∃ kept v behind, rest = kept ++ ⟨.insert, v⟩ :: behind ∧
        (∀ change ∈ kept, change.tag ≠ .insert) ∧
          (newSide kept).flatten ++ linePrefix = linePrefix ++ (newSide kept).flatten
    | ⟨.insert, _⟩ :: rest => ∃ fresh v behind, rest = fresh ++ ⟨.delete, v⟩ :: behind ∧
        ∀ change ∈ fresh, change.tag = .insert

/-- The numbers of a side stay within machine words: the context does not reach before the first
line and the last row is not numbered past the largest number. -/
def NumbersFit (edit : SearchReplaceEditDetail) (side : Side) : Prop :=
  (splitInclusive edit.contextBefore).length ≤ side.line edit ∧
    side.line edit + (tokenizeLines (side.string edit)).length +
      (splitInclusive edit.contextAfter).length ≤ usizeCount

section Numbers

/-- A line number that stays at the largest one. -/
def clamp (n : ℕ) : ℕ := min n (usizeCount - 1)

theorem saturatingAdd_clamp (n : ℕ) : saturatingAdd (clamp n) 1 = clamp (n + 1) := by
  unfold saturatingAdd clamp
  omega

@[simp] theorem Side.shows_equal (side : Side) : side.shows .equal = true := by
  cases side <;> rfl

/-- The cursor goes on by one behind a row of a side. -/
theorem Side.next_changeRow (side : Side) (linePrefix : Text) (s : Cursor) (change : Change) :
    side.next (changeRow linePrefix s change).2 =
      if side.shows change.tag then saturatingAdd (side.next s) 1 else side.next s := by
  obtain ⟨tag, v⟩ := change
  cases side <;> cases tag <;> simp only [changeRow] <;> split <;> rfl

theorem Side.number_changeRow (side : Side) (linePrefix : Text) (s : Cursor) (change : Change) :
    side.number (changeRow linePrefix s change).1 = side.next s := by
  cases side <;> rfl

theorem tag_changeRow (linePrefix : Text) (s : Cursor) (change : Change) :
    (changeRow linePrefix s change).1.tag = change.tag := rfl

theorem Side.numbers_cons (side : Side) (row : DiffLine) (hunk : DiffHunk) :
    side.numbers (row :: hunk) =
      if side.shows row.tag then side.number row :: side.numbers hunk else side.numbers hunk := by
  unfold Side.numbers Side.rows
  rw [List.filter_cons]
  split <;> rfl

theorem Side.numbers_append (side : Side) (front back : DiffHunk) :
    side.numbers (front ++ back) = side.numbers front ++ side.numbers back := by
  simp only [Side.numbers, Side.rows, List.filter_append, List.map_append]

theorem numbers_changeRows (side : Side) (linePrefix : Text) (script : List Change) {s : Cursor}
    {start : ℕ} (hstart : side.next s = clamp start) :
    side.numbers (changeRows linePrefix s script).1 =
        (List.range' start (side.lines script).length).map clamp ∧
      side.next (changeRows linePrefix s script).2 = clamp (start + (side.lines script).length) := by
  induction script generalizing s start with
  | nil => cases side <;> exact ⟨rfl, hstart⟩
  | cons change script ih =>
    have hnext := side.next_changeRow linePrefix s change
    have hlines : side.lines (change :: script) =
        if side.shows change.tag then change.value :: side.lines script else side.lines script := by
      obtain ⟨tag, v⟩ := change
      cases side <;> cases tag <;> simp [Side.lines, Side.shows]
    unfold changeRows
    dsimp only
    rw [Side.numbers_cons, tag_changeRow, Side.number_changeRow, hlines]
    by_cases hshows : side.shows change.tag = true
    · rw [if_pos hshows, hstart, saturatingAdd_clamp] at hnext
      obtain ⟨hnumbers, hlast⟩ := ih hnext
      rw [if_pos hshows, if_pos hshows, List.length_cons, List.range'_succ, List.map_cons, hnumbers,
        hlast, hstart]
      refine ⟨rfl, ?_⟩
      congr 1
      omega
    · rw [if_neg hshows, hstart] at hnext
      rw [if_neg hshows, if_neg hshows]
      exact ih hnext

theorem numbers_rowsAfter (side : Side) (ls : List Text) {lo ln start : ℕ}
    (hstart : side.next ⟨lo, ln, false, false⟩ = clamp start) :
    side.numbers (rowsAfter lo ln ls) = (List.range' start ls.length).map clamp := by
  induction ls generalizing lo ln start with
  | nil => rfl
  | cons line ls ih =>
    have hnext : side.next ⟨saturatingAdd lo 1, saturatingAdd ln 1, false, false⟩ =
        clamp (start + 1) := by
      rw [← saturatingAdd_clamp, ← hstart]
      cases side <;> rfl
    have hnumber : side.number ⟨line, lo, ln, .equal⟩ = clamp start := by
      rw [← hstart]
      cases side <;> rfl
    rw [rowsAfter, Side.numbers_cons, Side.shows_equal, if_pos rfl, hnumber, ih hnext,
      List.length_cons, List.range'_succ, List.map_cons]

theorem length_rowsBefore (edit : SearchReplaceEditDetail) :
    (rowsBefore edit).length = (splitInclusive edit.contextBefore).length := by
  rw [rowsBefore, List.length_map, List.length_zipIdx]

theorem numbers_rowsBefore (side : Side) (edit : SearchReplaceEditDetail) :
    side.numbers (rowsBefore edit) = (List.range (rowsBefore edit).length).map fun i =>
      side.line edit - ((rowsBefore edit).length - i) := by
  have hall : side.rows (rowsBefore edit) = rowsBefore edit := by
    refine List.filter_eq_self.mpr fun row hrow => ?_
    obtain ⟨⟨line, i⟩, -, rfl⟩ := List.mem_map.mp hrow
    exact side.shows_equal
  rw [Side.numbers, hall]
  refine List.ext_getElem (by rw [List.length_map, List.length_map, List.length_range]) fun i hi _ => ?_
  rw [List.length_map] at hi
  have hlen := length_rowsBefore edit
  rw [List.getElem_map, List.getElem_map, List.getElem_range]
  simp only [rowsBefore, List.getElem_map, List.getElem_zipIdx, Nat.zero_add, List.length_map,
    List.length_zipIdx]
  cases side
  · dsimp only [Side.number, Side.line]
    omega
  · dsimp only [Side.number, Side.line]
    omega

/-- Clamped numbers follow one another where none of them is past the largest. -/
theorem map_clamp_eq_iff {start count : ℕ} (hstart : start < usizeCount) :
    (List.range' start count).map clamp = List.range' start count ↔
      count = 0 ∨ start + count ≤ usizeCount := by
  constructor
  · intro h
    by_contra hno
    obtain ⟨hcount, hpast⟩ := not_or.mp hno
    have hlast : start + (count - 1) ∈ List.range' start count := by
      rw [List.mem_range'_1]
      omega
    have hfixed : ∀ n ∈ List.range' start count, clamp n = n := by
      have hid := List.map_eq_map_iff.mp (h.trans (List.map_id _).symm)
      exact hid
    have hclamp := hfixed _ hlast
    unfold clamp at hclamp
    omega
  · intro h
    refine (List.map_congr_left fun n hn => ?_).trans (List.map_id _)
    rw [List.mem_range'_1] at hn
    unfold clamp
    rw [id]
    omega

end Numbers

section Texts

variable {linePrefix : Text}

/-- The change a row shows. -/
def DiffLine.change (row : DiffLine) : Change := ⟨row.tag, row.text⟩

/-- The script as its rows show it. -/
def shown (linePrefix : Text) (s : Cursor) (script : List Change) : List Change :=
  (changeRows linePrefix s script).1.map DiffLine.change

theorem Side.text_eq_lines (side : Side) (hunk : DiffHunk) :
    side.text hunk = (side.lines (hunk.map DiffLine.change)).flatten := by
  cases side <;> simp only [Side.text, Side.rows, Side.lines, oldSide, newSide, List.filter_map,
    List.map_map] <;> rfl

theorem shown_cons (s : Cursor) (change : Change) (script : List Change) :
    shown linePrefix s (change :: script) =
      (changeRow linePrefix s change).1.change :: shown linePrefix (changeRow linePrefix s change).2 script :=
  rfl

theorem shown_without (s : Cursor) (script : List Change) : shown [] s script = script := by
  induction script generalizing s with
  | nil => rfl
  | cons change script ih =>
    rw [shown_cons, ih]
    rfl

/-- A row that needs no prefix shows its change. -/
theorem change_changeRow_of_not_needs {s : Cursor} {change : Change}
    (h : s.needsPrefix change.tag = false) : (changeRow linePrefix s change).1.change = change := by
  simp only [changeRow, h, Bool.and_false, Bool.false_eq_true, if_false, DiffLine.change]

section Prefixed

variable (hnil : linePrefix ≠ [])

include hnil

theorem change_changeRow_of_needs {s : Cursor} {change : Change}
    (h : s.needsPrefix change.tag = true) :
    (changeRow linePrefix s change).1.change = ⟨change.tag, linePrefix ++ change.value⟩ := by
  have hempty : linePrefix.isEmpty = false := by rwa [List.isEmpty_eq_false_iff]
  simp only [changeRow, h, hempty, Bool.not_false, Bool.and_true, if_true, DiffLine.change]

/-- A row that is deleted or equal counts as prefixed on the old side. -/
theorem appliedDelete_changeRow (s : Cursor) (change : Change) :
    (changeRow linePrefix s change).2.prefixAppliedDelete =
      (s.prefixAppliedDelete || decide (change.tag ≠ .insert)) := by
  have hempty : linePrefix.isEmpty = false := by rwa [List.isEmpty_eq_false_iff]
  obtain ⟨tag, v⟩ := change
  cases tag <;> simp [changeRow, hempty, Cursor.markApplied, Cursor.advance]

/-- A row that is inserted counts as prefixed on the new side. -/
theorem appliedInsert_changeRow (s : Cursor) (change : Change) :
    (changeRow linePrefix s change).2.prefixAppliedInsert =
      (s.prefixAppliedInsert || decide (change.tag = .insert)) := by
  have hempty : linePrefix.isEmpty = false := by rwa [List.isEmpty_eq_false_iff]
  obtain ⟨tag, v⟩ := change
  cases tag <;> simp [changeRow, hempty, Cursor.markApplied, Cursor.advance]

/-- Once a deleted or equal row was prefixed, the old side is shown as it is. -/
theorem oldSide_shown {s : Cursor} (h : s.prefixAppliedDelete = true) (script : List Change) :
    oldSide (shown linePrefix s script) = oldSide script := by
  induction script generalizing s with
  | nil => rfl
  | cons change script ih =>
    have hnext : (changeRow linePrefix s change).2.prefixAppliedDelete = true := by
      rw [appliedDelete_changeRow hnil, h, Bool.true_or]
    rw [shown_cons]
    obtain ⟨tag, v⟩ := change
    cases tag with
    | insert =>
      rw [oldSide_insert, ← ih hnext]
      exact oldSide_insert _ _
    | delete =>
      have hneeds : s.needsPrefix .delete = false := by simp [Cursor.needsPrefix, h]
      rw [change_changeRow_of_not_needs hneeds, oldSide_delete, oldSide_delete, ih hnext]
    | equal =>
      have hneeds : s.needsPrefix .equal = false := by simp [Cursor.needsPrefix, h]
      rw [change_changeRow_of_not_needs hneeds, oldSide_equal, oldSide_equal, ih hnext]

/-- Once an inserted row was prefixed, the new side is shown as it is. -/
theorem newSide_shown {s : Cursor} (h : s.prefixAppliedInsert = true) (script : List Change) :
    newSide (shown linePrefix s script) = newSide script := by
  induction script generalizing s with
  | nil => rfl
  | cons change script ih =>
    have hnext : (changeRow linePrefix s change).2.prefixAppliedInsert = true := by
      rw [appliedInsert_changeRow hnil, h, Bool.true_or]
    rw [shown_cons]
    obtain ⟨tag, v⟩ := change
    cases tag with
    | delete =>
      rw [newSide_delete, ← ih hnext]
      exact newSide_delete _ _
    | insert =>
      have hneeds : s.needsPrefix .insert = false := by simp [Cursor.needsPrefix, h]
      rw [change_changeRow_of_not_needs hneeds, newSide_insert, newSide_insert, ih hnext]
    | equal =>
      have hneeds : s.needsPrefix .equal = false := by simp [Cursor.needsPrefix, h]
      rw [change_changeRow_of_not_needs hneeds, newSide_equal, newSide_equal, ih hnext]

/-- Behind a row that stood on the old side, rows of the new one show their lines up to the first
inserted row, which gets the prefix. -/
theorem newSide_shown_kept {s : Cursor} (h : s.prefixAppliedDelete = true)
    {kept : List Change} (hkept : ∀ change ∈ kept, change.tag ≠ .insert) (script : List Change) :
    ∃ s', s'.prefixAppliedInsert = s.prefixAppliedInsert ∧
      newSide (shown linePrefix s (kept ++ script)) =
        newSide kept ++ newSide (shown linePrefix s' script) := by
  induction kept generalizing s with
  | nil => exact ⟨s, rfl, rfl⟩
  | cons change kept ih =>
    obtain ⟨hchange, hkept⟩ := List.forall_mem_cons.mp hkept
    have hnext : (changeRow linePrefix s change).2.prefixAppliedDelete = true := by
      rw [appliedDelete_changeRow hnil, h, Bool.true_or]
    have hinsert : (changeRow linePrefix s change).2.prefixAppliedInsert = s.prefixAppliedInsert := by
      rw [appliedInsert_changeRow hnil, decide_eq_false hchange, Bool.or_false]
    obtain ⟨s', hs', hnew⟩ := ih hnext hkept
    refine ⟨s', hs'.trans hinsert, ?_⟩
    rw [List.cons_append, shown_cons]
    obtain ⟨tag, v⟩ := change
    cases tag with
    | insert => exact (hchange rfl).elim
    | delete =>
      rw [newSide_delete, ← hnew]
      exact newSide_delete _ _
    | equal =>
      have hneeds : s.needsPrefix .equal = false := by simp [Cursor.needsPrefix, h]
      rw [change_changeRow_of_not_needs hneeds, newSide_equal, newSide_equal, hnew, List.cons_append]

/-- The prefix ends up behind the lines kept before the first inserted one. -/
theorem newSide_shown_inserted {s : Cursor} (hdelete : s.prefixAppliedDelete = true)
    (hinsert : s.prefixAppliedInsert = false) {kept : List Change}
    (hkept : ∀ change ∈ kept, change.tag ≠ .insert) (w : Text) (behind : List Change) :
    newSide (shown linePrefix s (kept ++ ⟨.insert, w⟩ :: behind)) =
      newSide kept ++ (linePrefix ++ w) :: newSide behind := by
  obtain ⟨s', hs', hnew⟩ := newSide_shown_kept hnil hdelete hkept (⟨.insert, w⟩ :: behind)
  have hneeds : s'.needsPrefix .insert = true := by simp [Cursor.needsPrefix, hs', hinsert]
  have happlied : (changeRow linePrefix s' ⟨.insert, w⟩).2.prefixAppliedInsert = true := by
    rw [appliedInsert_changeRow hnil]
    exact Bool.or_true _
  rw [hnew, shown_cons, change_changeRow_of_needs hnil hneeds, newSide_insert,
    newSide_shown hnil happlied]

/-- Behind rows that were inserted, the first row of the old side gets the prefix if it was
deleted. -/
theorem oldSide_shown_fresh {s : Cursor} (hdelete : s.prefixAppliedDelete = false)
    (hinsert : s.prefixAppliedInsert = true) {fresh : List Change}
    (hfresh : ∀ change ∈ fresh, change.tag = .insert) (script : List Change) :
    ∃ s', s'.prefixAppliedDelete = false ∧ s'.prefixAppliedInsert = true ∧
      oldSide (shown linePrefix s (fresh ++ script)) = oldSide (shown linePrefix s' script) := by
  induction fresh generalizing s with
  | nil => exact ⟨s, hdelete, hinsert, rfl⟩
  | cons change fresh ih =>
    obtain ⟨hchange, hfresh⟩ := List.forall_mem_cons.mp hfresh
    have hnext : (changeRow linePrefix s change).2.prefixAppliedDelete = false := by
      rw [appliedDelete_changeRow hnil, hdelete, hchange]
      rfl
    have hnext' : (changeRow linePrefix s change).2.prefixAppliedInsert = true := by
      rw [appliedInsert_changeRow hnil, hinsert, Bool.true_or]
    obtain ⟨s', hs', hs'', hold⟩ := ih hnext hnext' hfresh
    refine ⟨s', hs', hs'', ?_⟩
    obtain ⟨tag, v⟩ := change
    obtain rfl : tag = .insert := hchange
    rw [List.cons_append, shown_cons, ← hold]
    exact oldSide_insert _ _

end Prefixed

/-- A script is without changes of a kind, or it has a first one of them. -/
theorem exists_first (p : Change → Bool) (script : List Change) :
    (∀ change ∈ script, p change = false) ∨
      ∃ front change back, script = front ++ change :: back ∧ p change = true ∧
        ∀ change ∈ front, p change = false := by
  cases hfind : script.find? p with
  | none =>
    left
    intro change hchange
    exact Bool.eq_false_iff.mpr (List.find?_eq_none.mp hfind change hchange)
  | some change =>
    right
    obtain ⟨hp, front, back, hscript, hfront⟩ := List.find?_eq_some_iff_append.mp hfind
    exact ⟨front, change, back, hscript, hp, fun c hc => by simpa using hfront c hc⟩

theorem append_ne_self (hnil : linePrefix ≠ []) (t : Text) : t ≠ linePrefix ++ t := by
  intro h
  have hlen := congrArg List.length h
  have hpos := List.length_pos_iff.mpr hnil
  rw [List.length_append] at hlen
  omega

theorem equal_fits_iff (hnil : linePrefix ≠ []) (lo ln : ℕ) (v : Text) (rest : List Change) :
    (newSide (shown linePrefix ⟨lo, ln, false, false⟩ (⟨.equal, v⟩ :: rest))).flatten =
        linePrefix ++ (newSide (⟨.equal, v⟩ :: rest)).flatten ↔
      ∀ change ∈ rest, change.tag ≠ .insert := by
  have hrow : (changeRow linePrefix ⟨lo, ln, false, false⟩ ⟨.equal, v⟩).1.change =
      ⟨.equal, linePrefix ++ v⟩ := change_changeRow_of_needs hnil rfl
  have hdelete := appliedDelete_changeRow hnil ⟨lo, ln, false, false⟩ ⟨.equal, v⟩
  have hinsert := appliedInsert_changeRow hnil ⟨lo, ln, false, false⟩ ⟨.equal, v⟩
  rw [shown_cons, hrow, newSide_equal, newSide_equal, List.flatten_cons, List.flatten_cons,
    List.append_assoc, List.append_cancel_left_eq, List.append_cancel_left_eq]
  generalize (changeRow linePrefix ⟨lo, ln, false, false⟩ ⟨.equal, v⟩).2 = s at hdelete hinsert ⊢
  constructor
  · intro h
    rcases exists_first (fun change => change.tag = .insert) rest with hnone | hfirst
    · exact fun change hchange => of_decide_eq_false (hnone change hchange)
    · obtain ⟨kept, ⟨tag, w⟩, behind, rfl, htag, hkept⟩ := hfirst
      obtain rfl : tag = .insert := of_decide_eq_true htag
      rw [newSide_shown_inserted hnil hdelete hinsert
        fun change hchange => of_decide_eq_false (hkept change hchange), newSide_append,
        newSide_insert] at h
      have hlen := congrArg List.length h
      have hpos := List.length_pos_iff.mpr hnil
      simp only [List.flatten_append, List.flatten_cons, List.length_append] at hlen
      omega
  · intro hnone
    obtain ⟨s', -, hnew⟩ := newSide_shown_kept hnil hdelete hnone []
    rw [List.append_nil] at hnew
    rw [hnew]
    exact congrArg List.flatten (List.append_nil _)

theorem delete_fits_iff (hnil : linePrefix ≠ []) (lo ln : ℕ) (v : Text) (rest : List Change) :
    (newSide (shown linePrefix ⟨lo, ln, false, false⟩ (⟨.delete, v⟩ :: rest))).flatten =
        linePrefix ++ (newSide (⟨.delete, v⟩ :: rest)).flatten ↔
      ∃ kept v behind, rest = kept ++ ⟨.insert, v⟩ :: behind ∧
        (∀ change ∈ kept, change.tag ≠ .insert) ∧
          (newSide kept).flatten ++ linePrefix = linePrefix ++ (newSide kept).flatten := by
  have hdelete := appliedDelete_changeRow hnil ⟨lo, ln, false, false⟩ ⟨.delete, v⟩
  have hinsert := appliedInsert_changeRow hnil ⟨lo, ln, false, false⟩ ⟨.delete, v⟩
  have hskip (change : Change) (htag : change.tag = .delete) (cs : List Change) :
      newSide (change :: cs) = newSide cs := by
    obtain ⟨tag, w⟩ := change
    cases htag
    exact newSide_delete w cs
  rw [shown_cons, hskip (changeRow linePrefix ⟨lo, ln, false, false⟩ ⟨.delete, v⟩).1.change rfl,
    newSide_delete]
  generalize (changeRow linePrefix ⟨lo, ln, false, false⟩ ⟨.delete, v⟩).2 = s at hdelete hinsert ⊢
  have hcommute (kept : List Change) (w : Text) (behind : List Change) :
      (newSide kept ++ (linePrefix ++ w) :: newSide behind).flatten =
          linePrefix ++ (newSide (kept ++ ⟨.insert, w⟩ :: behind)).flatten ↔
        (newSide kept).flatten ++ linePrefix = linePrefix ++ (newSide kept).flatten := by
    rw [newSide_append, newSide_insert]
    simp only [List.flatten_append, List.flatten_cons]
    rw [← List.append_assoc, ← List.append_assoc, ← List.append_assoc,
      ← List.append_assoc (linePrefix ++ _), List.append_cancel_right_eq, List.append_cancel_right_eq]
  constructor
  · intro h
    rcases exists_first (fun change => change.tag = .insert) rest with hnone | hfirst
    · have hkept : ∀ change ∈ rest, change.tag ≠ .insert :=
        fun change hchange => of_decide_eq_false (hnone change hchange)
      obtain ⟨s', -, hnew⟩ := newSide_shown_kept hnil hdelete hkept []
      rw [List.append_nil] at hnew
      rw [hnew] at h
      have hplain : newSide rest ++ newSide (shown linePrefix s' []) = newSide rest :=
        List.append_nil _
      rw [hplain] at h
      exact (append_ne_self hnil _ h).elim
    · obtain ⟨kept, ⟨tag, w⟩, behind, rfl, htag, hkept⟩ := hfirst
      obtain rfl : tag = .insert := of_decide_eq_true htag
      have hkept : ∀ change ∈ kept, change.tag ≠ .insert :=
        fun change hchange => of_decide_eq_false (hkept change hchange)
      rw [newSide_shown_inserted hnil hdelete hinsert hkept, hcommute] at h
      exact ⟨kept, w, behind, rfl, hkept, h⟩
  · rintro ⟨kept, w, behind, rfl, hkept, hcomm⟩
    rw [newSide_shown_inserted hnil hdelete hinsert hkept, hcommute]
    exact hcomm

theorem insert_fits_iff (hnil : linePrefix ≠ []) (lo ln : ℕ) (v : Text) (rest : List Change) :
    (oldSide (shown linePrefix ⟨lo, ln, false, false⟩ (⟨.insert, v⟩ :: rest))).flatten =
        linePrefix ++ (oldSide (⟨.insert, v⟩ :: rest)).flatten ↔
      ∃ fresh v behind, rest = fresh ++ ⟨.delete, v⟩ :: behind ∧
        ∀ change ∈ fresh, change.tag = .insert := by
  have hdelete := appliedDelete_changeRow hnil ⟨lo, ln, false, false⟩ ⟨.insert, v⟩
  have hinsert := appliedInsert_changeRow hnil ⟨lo, ln, false, false⟩ ⟨.insert, v⟩
  have hskip (change : Change) (htag : change.tag = .insert) (cs : List Change) :
      oldSide (change :: cs) = oldSide cs := by
    obtain ⟨tag, w⟩ := change
    cases htag
    exact oldSide_insert w cs
  have hfreshSide (fresh : List Change) (hfresh : ∀ change ∈ fresh, change.tag = .insert) :
      oldSide fresh = [] := by
    rw [oldSide, List.map_eq_nil_iff, List.filter_eq_nil_iff]
    intro change hchange
    simp [hfresh change hchange]
  rw [shown_cons, hskip (changeRow linePrefix ⟨lo, ln, false, false⟩ ⟨.insert, v⟩).1.change rfl,
    oldSide_insert]
  generalize (changeRow linePrefix ⟨lo, ln, false, false⟩ ⟨.insert, v⟩).2 = s at hdelete hinsert ⊢
  constructor
  · intro h
    rcases exists_first (fun change => change.tag ≠ .insert) rest with hall | hfirst
    · have hfresh : ∀ change ∈ rest, change.tag = .insert :=
        fun change hchange => not_not.mp (of_decide_eq_false (hall change hchange))
      obtain ⟨s', -, -, hold⟩ := oldSide_shown_fresh hnil hdelete hinsert hfresh []
      rw [List.append_nil] at hold
      rw [hold, hfreshSide rest hfresh] at h
      exact (append_ne_self hnil [] h).elim
    · obtain ⟨fresh, ⟨tag, w⟩, behind, rfl, htag, hfresh⟩ := hfirst
      have hfresh : ∀ change ∈ fresh, change.tag = .insert :=
        fun change hchange => not_not.mp (of_decide_eq_false (hfresh change hchange))
      cases tag with
      | insert => cases htag
      | delete => exact ⟨fresh, w, behind, rfl, hfresh⟩
      | equal =>
        obtain ⟨s', -, hs', hold⟩ :=
          oldSide_shown_fresh hnil hdelete hinsert hfresh (⟨.equal, w⟩ :: behind)
        have hneeds : s'.needsPrefix .equal = false := by simp [Cursor.needsPrefix, hs']
        have happlied : (changeRow linePrefix s' ⟨.equal, w⟩).2.prefixAppliedDelete = true := by
          rw [appliedDelete_changeRow hnil]
          exact Bool.or_true _
        rw [hold, shown_cons, change_changeRow_of_not_needs hneeds, oldSide_equal,
          oldSide_shown hnil happlied, oldSide_append, hfreshSide fresh hfresh, oldSide_equal,
          List.nil_append] at h
        exact (append_ne_self hnil _ h).elim
  · rintro ⟨fresh, w, behind, rfl, hfresh⟩
    obtain ⟨s', hs', -, hold⟩ :=
      oldSide_shown_fresh hnil hdelete hinsert hfresh (⟨.delete, w⟩ :: behind)
    have hneeds : s'.needsPrefix .delete = true := by simp [Cursor.needsPrefix, hs']
    have happlied : (changeRow linePrefix s' ⟨.delete, w⟩).2.prefixAppliedDelete = true := by
      rw [appliedDelete_changeRow hnil]
      exact Bool.or_true _
    rw [hold, shown_cons, change_changeRow_of_needs hnil hneeds, oldSide_delete,
      oldSide_shown hnil happlied, oldSide_append, hfreshSide fresh hfresh, oldSide_delete,
      List.nil_append, List.flatten_cons, List.flatten_cons, List.append_assoc]

theorem shown_fits_iff (lo ln : ℕ) (script : List Change) :
    ((oldSide (shown linePrefix ⟨lo, ln, false, false⟩ script)).flatten =
          linePrefix ++ (oldSide script).flatten ∧
        (newSide (shown linePrefix ⟨lo, ln, false, false⟩ script)).flatten =
          linePrefix ++ (newSide script).flatten) ↔ PrefixFits linePrefix script := by
  by_cases hnil : linePrefix = []
  · subst hnil
    rw [shown_without]
    exact iff_of_true ⟨rfl, rfl⟩ (.inl rfl)
  unfold PrefixFits
  rw [or_iff_right hnil]
  cases script with
  | nil => exact iff_of_false (fun h => append_ne_self hnil [] h.1) id
  | cons change rest =>
    obtain ⟨tag, v⟩ := change
    cases tag with
    | equal =>
      have happlied : (changeRow linePrefix ⟨lo, ln, false, false⟩ ⟨.equal, v⟩).2.prefixAppliedDelete
          = true := appliedDelete_changeRow hnil _ _
      have hside : (oldSide (shown linePrefix ⟨lo, ln, false, false⟩ (⟨.equal, v⟩ :: rest))).flatten =
          linePrefix ++ (oldSide (⟨.equal, v⟩ :: rest)).flatten := by
        rw [shown_cons, change_changeRow_of_needs hnil rfl, oldSide_equal,
          oldSide_shown hnil happlied, oldSide_equal, List.flatten_cons, List.flatten_cons,
          List.append_assoc]
      exact (and_iff_right hside).trans (equal_fits_iff hnil lo ln v rest)
    | delete =>
      have happlied : (changeRow linePrefix ⟨lo, ln, false, false⟩ ⟨.delete, v⟩).2.prefixAppliedDelete
          = true := appliedDelete_changeRow hnil _ _
      have hside : (oldSide (shown linePrefix ⟨lo, ln, false, false⟩ (⟨.delete, v⟩ :: rest))).flatten =
          linePrefix ++ (oldSide (⟨.delete, v⟩ :: rest)).flatten := by
        rw [shown_cons, change_changeRow_of_needs hnil rfl, oldSide_delete,
          oldSide_shown hnil happlied, oldSide_delete, List.flatten_cons, List.flatten_cons,
          List.append_assoc]
      exact (and_iff_right hside).trans (delete_fits_iff hnil lo ln v rest)
    | insert =>
      have happlied : (changeRow linePrefix ⟨lo, ln, false, false⟩ ⟨.insert, v⟩).2.prefixAppliedInsert
          = true := appliedInsert_changeRow hnil _ _
      have hside : (newSide (shown linePrefix ⟨lo, ln, false, false⟩ (⟨.insert, v⟩ :: rest))).flatten =
          linePrefix ++ (newSide (⟨.insert, v⟩ :: rest)).flatten := by
        rw [shown_cons, change_changeRow_of_needs hnil rfl, newSide_insert,
          newSide_shown hnil happlied, newSide_insert, List.flatten_cons, List.flatten_cons,
          List.append_assoc]
      exact (and_iff_left hside).trans (insert_fits_iff hnil lo ln v rest)

end Texts

section Edits

variable {fromLines : FromLines} {edit : SearchReplaceEditDetail}

theorem diffedNewText_of_ne (hold : edit.oldString ≠ []) : diffedNewText edit = edit.newString := by
  have hempty : edit.oldString.isEmpty = false := by rwa [List.isEmpty_eq_false_iff]
  rw [diffedNewText, hempty, Bool.false_and, Bool.false_and, if_neg Bool.false_ne_true]

theorem tokenizeLines_pos {t : Text} (h : t ≠ []) : 0 < (tokenizeLines t).length := by
  rw [List.length_pos_iff]
  intro hnil
  have hflat := flatten_splitAfter stopCrLf t
  rw [← tokenizeLines, hnil] at hflat
  exact h hflat.symm

variable (hold : edit.oldString ≠ [])
  (hscript : ValidScript edit.oldString edit.newString (fromLines edit.oldString edit.newString))

include hold hscript

theorem lines_script (side : Side) :
    side.lines (fromLines edit.oldString (diffedNewText edit)) = tokenizeLines (side.string edit) := by
  rw [diffedNewText_of_ne hold]
  cases side with
  | old => exact hscript.oldSide_eq
  | new => exact hscript.newSide_eq

/-- The rows of the diff show both strings behind the prefix when the script fits it. -/
theorem texts_iff :
    (∀ side : Side, side.text (editRows fromLines edit).1 = edit.linePrefix ++ side.string edit) ↔
      PrefixFits edit.linePrefix (fromLines edit.oldString edit.newString) := by
  have hflat (side : Side) : (side.lines (fromLines edit.oldString (diffedNewText edit))).flatten =
      side.string edit := by
    rw [lines_script hold hscript]
    exact flatten_splitAfter stopCrLf _
  have htext (side : Side) : side.text (editRows fromLines edit).1 =
      (side.lines (shown edit.linePrefix ⟨edit.oldLine, edit.newLine, false, false⟩
        (fromLines edit.oldString (diffedNewText edit)))).flatten := side.text_eq_lines _
  rw [← diffedNewText_of_ne hold, ← shown_fits_iff edit.oldLine edit.newLine]
  constructor
  · intro h
    have hsides (side : Side) := (htext side).symm.trans (h side)
    refine ⟨?_, ?_⟩
    · have hside := hsides .old
      rwa [← hflat .old] at hside
    · have hside := hsides .new
      rwa [← hflat .new] at hside
  · rintro ⟨holdSide, hnewSide⟩ side
    rw [htext, ← hflat side]
    cases side with
    | old => exact holdSide
    | new => exact hnewSide

theorem numbers_allRows (side : Side) (hline : side.line edit < usizeCount) :
    side.numbers (allRows fromLines edit) =
      ((List.range (rowsBefore edit).length).map fun i =>
        side.line edit - ((rowsBefore edit).length - i)) ++
      (List.range' (side.line edit) ((tokenizeLines (side.string edit)).length +
        (splitInclusive edit.contextAfter).length)).map clamp := by
  have hstart : side.next ⟨edit.oldLine, edit.newLine, false, false⟩ = clamp (side.line edit) := by
    have hclamp : clamp (side.line edit) = side.line edit := Nat.min_eq_left (by omega)
    rw [hclamp]
    cases side <;> rfl
  obtain ⟨hnumbers, hlast⟩ := numbers_changeRows side edit.linePrefix
    (fromLines edit.oldString (diffedNewText edit)) hstart
  rw [lines_script hold hscript] at hnumbers hlast
  have hafter : side.numbers (contextAfterRows fromLines edit) =
      (List.range' (side.line edit + (tokenizeLines (side.string edit)).length)
        (splitInclusive edit.contextAfter).length).map clamp := by
    refine numbers_rowsAfter side _ ?_
    rw [← hlast]
    cases side <;> rfl
  rw [allRows, Side.numbers_append, Side.numbers_append, numbers_rowsBefore, hafter,
    ← List.range'_append_1, List.map_append, List.append_assoc, ← hnumbers]
  rfl

/-- The numbers follow one another where they fit machine words. -/
theorem numbers_iff (side : Side) (hline : side.line edit < usizeCount)
    (hstring : side.string edit ≠ []) :
    (∃ first, first + (rowsBefore edit).length = side.line edit ∧
        side.numbers (allRows fromLines edit) =
          List.range' first (side.rows (allRows fromLines edit)).length) ↔ NumbersFit edit side := by
  have hnumbers := numbers_allRows hold hscript side hline
  have hlen : (side.rows (allRows fromLines edit)).length = (rowsBefore edit).length +
      ((tokenizeLines (side.string edit)).length + (splitInclusive edit.contextAfter).length) := by
    have hcount := congrArg List.length hnumbers
    rw [Side.numbers, List.length_map, List.length_append, List.length_map, List.length_range,
      List.length_map, List.length_range'] at hcount
    exact hcount
  have hpos := tokenizeLines_pos hstring
  have hbefore := length_rowsBefore edit
  rw [hnumbers, hlen, NumbersFit, ← hbefore, Nat.add_assoc]
  have hsplit (first : ℕ) : List.range' first ((rowsBefore edit).length +
      ((tokenizeLines (side.string edit)).length + (splitInclusive edit.contextAfter).length)) =
      List.range' first (rowsBefore edit).length ++ List.range' (first + (rowsBefore edit).length)
        ((tokenizeLines (side.string edit)).length + (splitInclusive edit.contextAfter).length) :=
    List.range'_append_1.symm
  constructor
  · rintro ⟨first, hfirst, heq⟩
    refine ⟨by omega, ?_⟩
    rw [hsplit, hfirst] at heq
    have hback := List.append_inj_right heq
      (by rw [List.length_map, List.length_range, List.length_range'])
    exact ((map_clamp_eq_iff hline).mp hback).resolve_left (by omega)
  · rintro ⟨hle, hfit⟩
    refine ⟨side.line edit - (rowsBefore edit).length, by omega, ?_⟩
    rw [hsplit, Nat.sub_add_cancel hle, (map_clamp_eq_iff hline).mpr (.inr hfit)]
    congr 1
    rw [List.range'_eq_map_range]
    refine List.map_congr_left fun i hi => ?_
    rw [List.mem_range] at hi
    omega

/-- What is shown of an edit is true exactly when its script begins in a way that fits its prefix
and its line numbers fit machine words on both sides. -/
theorem showsEdit_iff (hnew : edit.newString ≠ []) (holdLine : edit.oldLine < usizeCount)
    (hnewLine : edit.newLine < usizeCount) :
    ShowsEdit fromLines edit ↔
      PrefixFits edit.linePrefix (fromLines edit.oldString edit.newString) ∧
        ∀ side, NumbersFit edit side := by
  have hline (side : Side) : side.line edit < usizeCount := by
    cases side with
    | old => exact holdLine
    | new => exact hnewLine
  have hstring (side : Side) : side.string edit ≠ [] := by
    cases side with
    | old => exact hold
    | new => exact hnew
  constructor
  · intro h
    refine ⟨(texts_iff hold hscript).mp fun side => (h.sides side).text_eq, fun side => ?_⟩
    exact (numbers_iff hold hscript side (hline side) (hstring side)).mp (h.sides side).numbers_eq
  · rintro ⟨hnil, hnumbers⟩
    refine ⟨fun side => ⟨(texts_iff hold hscript).mpr hnil side, ?_⟩, fun hunk htrim => ?_⟩
    · exact (numbers_iff hold hscript side (hline side) (hstring side)).mpr (hnumbers side)
    · cases hall : (allRows fromLines edit).all DiffLine.isEqual with
      | true =>
        rw [trimHunk_of_equal hall] at htrim
        cases htrim
      | false =>
        obtain ⟨hunk', htrim', hshows⟩ := trimHunk_of_changed hall
        rw [htrim'] at htrim
        cases htrim
        exact hshows

end Edits

/-- A match behind an indentation whose first line is kept while a line is inserted behind it. -/
def indented : SearchReplaceEditDetail :=
  ⟨"a\nb\n".toList, 2, "a\nc\nb\n".toList, 2, "fn f\n".toList, "end\n".toList, "  ".toList⟩

/-- The script of the match. -/
def indentedScript : FromLines := fun _ _ =>
  [⟨.equal, "a\n".toList⟩, ⟨.insert, "c\n".toList⟩, ⟨.equal, "b\n".toList⟩]

/-- The inserted line is shown with the indentation of the line before it. -/
theorem not_showsEdit_indented :
    ValidScript indented.oldString indented.newString
        (indentedScript indented.oldString indented.newString) ∧
      ¬ ShowsEdit indentedScript indented := by
  refine ⟨⟨by decide, by decide⟩, fun h => ?_⟩
  have htext := (h.sides .new).text_eq
  revert htext
  decide

/-- A replaced line behind an indentation is shown right. -/
theorem showsEdit_replaced :
    ShowsEdit (fun _ _ => [⟨.delete, "old\n".toList⟩, ⟨.insert, "new\n".toList⟩])
      ⟨"old\n".toList, 2, "new\n".toList, 2, "fn f\n".toList, [], "  ".toList⟩ := by
  refine (showsEdit_iff (by decide) ⟨by decide, by decide⟩ (by decide) (by decide) (by decide)).mpr
    ⟨.inr ⟨[], "new\n".toList, [], rfl, nofun, ?_⟩, fun side => ?_⟩
  · exact (List.append_nil _).symm
  · cases side with
    | old | new => exact ⟨by decide, by decide⟩

end Ezer.PagerDiff
