import Ezer.HunkTracker.PatchExact
import Ezer.Lib.Decimal
import Ezer.SearchReplace.Tool
import Mathlib.Data.List.TakeWhile

/-!
# Hunks of edits

An applied edit is shown as one hunk: context before it, the rows of a line
diff of its two strings, and context behind it, each row with its line numbers
on both sides. The text that stands before the edit on its first line is put in
front of rows of the diff. Context is then cut down around the changes.
-/

namespace Ezer.PagerDiff

open Ezer.Lib Ezer.HunkTracker Ezer.SearchReplace

/-- A row of a hunk, with its line numbers in the old text and in the new one. -/
structure DiffLine where
  text : Text
  lo : ℕ
  ln : ℕ
  tag : ChangeTag
  deriving DecidableEq

/-- The rows of a hunk. -/
abbrev DiffHunk := List DiffLine

/-- The number of unchanged lines kept on each side of a change. -/
def maxContext : ℕ := 3

/-- A line diff of two texts. -/
abbrev FromLines := Text → Text → List Change

/-- A sum of machine words that stays at the largest one. -/
def saturatingAdd (a b : ℕ) : ℕ := min (a + b) (usizeCount - 1)

/-- The rows of the context before an edit. -/
def rowsBefore (edit : SearchReplaceEditDetail) : DiffHunk :=
  let beforeLines := splitInclusive edit.contextBefore
  beforeLines.zipIdx.map fun (lineText, i) =>
    let fromEnd := beforeLines.length - (i + 1)
    ⟨lineText, edit.oldLine - (fromEnd + 1), edit.newLine - (fromEnd + 1), .equal⟩

/-- The new text of the diff: a blank line inserted in the middle of a file is shown as one. -/
def diffedNewText (edit : SearchReplaceEditDetail) : Text :=
  let emptyToEmpty := edit.oldString.isEmpty && edit.newString.isEmpty
  let midFile := !edit.contextBefore.isEmpty || !edit.contextAfter.isEmpty
  if emptyToEmpty && midFile then ['\n'] else edit.newString

/-- Where the next row stands, and on which side the prefix was applied. -/
structure Cursor where
  lo : ℕ
  ln : ℕ
  prefixAppliedDelete : Bool
  prefixAppliedInsert : Bool

namespace Cursor

/-- Whether a row gets the prefix. -/
def needsPrefix (s : Cursor) : ChangeTag → Bool
  | .delete => !s.prefixAppliedDelete
  | .insert => !s.prefixAppliedInsert
  | .equal => !s.prefixAppliedDelete && !s.prefixAppliedInsert

/-- The sides that count as prefixed behind a row. -/
def markApplied (s : Cursor) : ChangeTag → Cursor
  | .delete | .equal => { s with prefixAppliedDelete := true }
  | .insert => { s with prefixAppliedInsert := true }

/-- The numbers behind a row. -/
def advance (s : Cursor) : ChangeTag → Cursor
  | .equal => { s with lo := saturatingAdd s.lo 1, ln := saturatingAdd s.ln 1 }
  | .delete => { s with lo := saturatingAdd s.lo 1 }
  | .insert => { s with ln := saturatingAdd s.ln 1 }

end Cursor

/-- The row of a change. -/
def changeRow (linePrefix : Text) (s : Cursor) (change : Change) : DiffLine × Cursor :=
  let hasPrefix := !linePrefix.isEmpty
  let text := if hasPrefix && s.needsPrefix change.tag then linePrefix ++ change.value
    else change.value
  let marked := if hasPrefix then s.markApplied change.tag else s
  (⟨text, s.lo, s.ln, change.tag⟩, marked.advance change.tag)

/-- The rows of the changes, and where they lead to. -/
def changeRows (linePrefix : Text) : Cursor → List Change → DiffHunk × Cursor
  | s, [] => ([], s)
  | s, change :: changes =>
    let (row, next) := changeRow linePrefix s change
    let (rows, last) := changeRows linePrefix next changes
    (row :: rows, last)

/-- The rows of the context behind an edit. -/
def rowsAfter : ℕ → ℕ → List Text → DiffHunk
  | _, _, [] => []
  | lo, ln, line :: ls => ⟨line, lo, ln, .equal⟩ :: rowsAfter (saturatingAdd lo 1) (saturatingAdd ln 1) ls

/-- The rows of the diff of an edit, and where they lead to. -/
def editRows (fromLines : FromLines) (edit : SearchReplaceEditDetail) : DiffHunk × Cursor :=
  changeRows edit.linePrefix ⟨edit.oldLine, edit.newLine, false, false⟩
    (fromLines edit.oldString (diffedNewText edit))

/-- The rows behind those of the diff. -/
def contextAfterRows (fromLines : FromLines) (edit : SearchReplaceEditDetail) : DiffHunk :=
  let last := (editRows fromLines edit).2
  rowsAfter last.lo last.ln (splitInclusive edit.contextAfter)

/-- All rows of an edit. -/
def allRows (fromLines : FromLines) (edit : SearchReplaceEditDetail) : DiffHunk :=
  rowsBefore edit ++ (editRows fromLines edit).1 ++ contextAfterRows fromLines edit

/-- A row that no change made. -/
def DiffLine.isEqual (row : DiffLine) : Bool := row.tag = .equal

/-- ASCII white space. -/
def isAsciiWhitespace (c : Char) : Bool := c ∈ [' ', '\t', '\n', '\x0c', '\r']

/-- A context row that shows nothing. -/
def DiffLine.isBlank (row : DiffLine) : Bool := row.isEqual && row.text.all isAsciiWhitespace

/-- The first row that is shown among the next ones. -/
def skipForward (rows : DiffHunk) : ℕ → ℕ → ℕ
  | 0, start => start
  | count + 1, start =>
    match rows[start]? with
    | none => start
    | some entry => if entry.isBlank then skipForward rows count (start + 1) else start

/-- The end of the rows that are shown, among the last ones. -/
def skipBackward (rows : DiffHunk) : ℕ → ℕ → ℕ
  | 0, stop => stop
  | count + 1, stop =>
    match rows[stop - 1]? with
    | none => stop
    | some entry => if entry.isBlank then skipBackward rows count (stop - 1) else stop

/-- The rows that are shown, if there is a change. -/
def trimHunk (rows : DiffHunk) : Option DiffHunk :=
  if rows.all DiffLine.isEqual then none
  else
    let equalBefore := (rows.takeWhile DiffLine.isEqual).length
    let equalAfter := (rows.reverse.takeWhile DiffLine.isEqual).length
    let start := equalBefore - maxContext
    let stop := rows.length - (equalAfter - maxContext)
    let start := skipForward rows (stop - start) start
    let stop := skipBackward rows (stop - start) stop
    if start < stop then some ((rows.take stop).drop start) else none

/-- The hunks of edits. -/
def buildDiffHunks (fromLines : FromLines) (details : List SearchReplaceEditDetail) :
    List DiffHunk :=
  details.filterMap fun edit => trimHunk (allRows fromLines edit)

/-- A hunk shows a part of the rows with every change in it and little context around. -/
structure ShowsChanges (rows hunk : DiffHunk) : Prop where
  contiguous : ∃ front back, rows = front ++ hunk ++ back ∧
    ∀ row ∈ front ++ back, row.tag = .equal
  lead_le : (hunk.takeWhile DiffLine.isEqual).length ≤ maxContext
  trail_le : (hunk.reverse.takeWhile DiffLine.isEqual).length ≤ maxContext

section Trim

variable {rows front changed back : DiffHunk}

theorem takeWhile_lead (hfront : ∀ row ∈ front, row.isEqual = true)
    (hchanged : ∃ row ∈ changed.head?, row.isEqual = false) (back : DiffHunk) :
    (front ++ changed ++ back).takeWhile DiffLine.isEqual = front := by
  obtain ⟨row, hrow, hne⟩ := hchanged
  obtain ⟨rest, rfl⟩ := List.head?_eq_some_iff.mp hrow
  rw [List.append_assoc, List.takeWhile_append_of_pos hfront, List.cons_append,
    List.takeWhile_cons_of_neg (Bool.eq_false_iff.mp hne), List.append_nil]

theorem takeWhile_trail (hback : ∀ row ∈ back, row.isEqual = true)
    (hchanged : ∃ row ∈ changed.getLast?, row.isEqual = false) (front : DiffHunk) :
    (front ++ changed ++ back).reverse.takeWhile DiffLine.isEqual = back.reverse := by
  have hrev : ∀ row ∈ back.reverse, row.isEqual = true :=
    fun row hrow => hback row (List.mem_reverse.mp hrow)
  have hlead : ∃ row ∈ changed.reverse.head?, row.isEqual = false := by
    rwa [List.head?_reverse]
  rw [List.reverse_append, List.reverse_append, ← List.append_assoc]
  exact takeWhile_lead hrev hlead front.reverse

theorem exists_changed (h : rows.all DiffLine.isEqual = false) :
    ∃ front changed back, rows = front ++ changed ++ back ∧
      (∀ row ∈ front, row.isEqual = true) ∧ (∀ row ∈ back, row.isEqual = true) ∧
      (∃ row ∈ changed.head?, row.isEqual = false) ∧
        ∃ row ∈ changed.getLast?, row.isEqual = false := by
  obtain ⟨row, hrow, hne⟩ := List.all_eq_false.mp h
  have hfront : ∀ row ∈ rows.takeWhile DiffLine.isEqual, row.isEqual = true :=
    fun _ => List.mem_takeWhile_imp
  -- What is behind the context in front starts with a change.
  cases hrest : rows.dropWhile DiffLine.isEqual with
  | nil => exact (hne (List.dropWhile_eq_nil_iff.mp hrest row hrow)).elim
  | cons first rest =>
    have hfirst : first.isEqual = false := by
      have hhead := List.head?_dropWhile_not DiffLine.isEqual rows
      rw [hrest] at hhead
      exact hhead
    have hrows : rows = rows.takeWhile DiffLine.isEqual ++ first :: rest := by
      rw [← hrest, List.takeWhile_append_dropWhile]
    have hsplit := List.takeWhile_append_dropWhile (p := DiffLine.isEqual) (l := (first :: rest).reverse)
    cases hlast : (first :: rest).reverse.dropWhile DiffLine.isEqual with
    | nil =>
      have hall := List.dropWhile_eq_nil_iff.mp hlast first (by simp)
      rw [hfirst] at hall
      cases hall
    | cons last more =>
      have hlastNe : last.isEqual = false := by
        have hhead := List.head?_dropWhile_not DiffLine.isEqual (first :: rest).reverse
        rw [hlast] at hhead
        exact hhead
      rw [hlast] at hsplit
      have hmid : first :: rest = (last :: more).reverse ++
          ((first :: rest).reverse.takeWhile DiffLine.isEqual).reverse := by
        rw [← List.reverse_append, hsplit, List.reverse_reverse]
      refine ⟨rows.takeWhile DiffLine.isEqual, (last :: more).reverse,
        ((first :: rest).reverse.takeWhile DiffLine.isEqual).reverse, ?_, hfront, ?_, ?_, ?_⟩
      · rw [List.append_assoc, ← hmid]
        exact hrows
      · exact fun row hrow => List.mem_takeWhile_imp (List.mem_reverse.mp hrow)
      · refine ⟨first, ?_, hfirst⟩
        have hhead := congrArg List.head? hmid
        rw [List.head?_append_of_ne_nil _ (by simp)] at hhead
        exact hhead.symm
      · exact ⟨last, by simp, hlastNe⟩

theorem skipForward_bounds {limit : ℕ} (hlimit : ∃ row ∈ rows[limit]?, row.isBlank = false)
    (count : ℕ) {start : ℕ} (h : start ≤ limit) :
    start ≤ skipForward rows count start ∧ skipForward rows count start ≤ limit := by
  induction count generalizing start with
  | zero => exact ⟨le_rfl, h⟩
  | succ count ih =>
    unfold skipForward
    cases hget : rows[start]? with
    | none => exact ⟨le_rfl, h⟩
    | some entry =>
      dsimp only
      split
      · rename_i hblank
        have hne : start ≠ limit := by
          rintro rfl
          obtain ⟨row, hrow, hshown⟩ := hlimit
          rw [hget] at hrow
          cases hrow
          rw [hshown] at hblank
          cases hblank
        have hle' : start + 1 ≤ limit := by omega
        obtain ⟨hle, hge⟩ := ih hle'
        exact ⟨by omega, hge⟩
      · exact ⟨le_rfl, h⟩

theorem skipBackward_bounds {limit : ℕ} (hlimit : ∃ row ∈ rows[limit]?, row.isBlank = false)
    (count : ℕ) {stop : ℕ} (h : limit < stop) :
    limit < skipBackward rows count stop ∧ skipBackward rows count stop ≤ stop := by
  induction count generalizing stop with
  | zero => exact ⟨h, le_rfl⟩
  | succ count ih =>
    unfold skipBackward
    cases hget : rows[stop - 1]? with
    | none => exact ⟨h, le_rfl⟩
    | some entry =>
      dsimp only
      split
      · rename_i hblank
        have hne : stop - 1 ≠ limit := by
          rintro rfl
          obtain ⟨row, hrow, hshown⟩ := hlimit
          rw [hget] at hrow
          cases hrow
          rw [hshown] at hblank
          cases hblank
        have hlt' : limit < stop - 1 := by omega
        obtain ⟨hlt, hle⟩ := ih hlt'
        exact ⟨hlt, by omega⟩
      · exact ⟨h, le_rfl⟩

/-- A change is no blank row. -/
theorem DiffLine.isBlank_of_changed {row : DiffLine} (h : row.isEqual = false) :
    row.isBlank = false := by
  rw [DiffLine.isBlank, h, Bool.false_and]

theorem showsChanges_cut (hfront : ∀ row ∈ front, row.isEqual = true)
    (hback : ∀ row ∈ back, row.isEqual = true)
    (hfirst : ∃ row ∈ changed.head?, row.isEqual = false)
    (hlast : ∃ row ∈ changed.getLast?, row.isEqual = false) {start kept : ℕ}
    (hstart : front.length ≤ start + maxContext) (hkept : kept ≤ maxContext) :
    ShowsChanges (front ++ changed ++ back) (front.drop start ++ changed ++ back.take kept) := by
  have hlead : ∀ row ∈ front.drop start, row.isEqual = true :=
    fun row hrow => hfront row (List.mem_of_mem_drop hrow)
  have htrail : ∀ row ∈ back.take kept, row.isEqual = true :=
    fun row hrow => hback row (List.mem_of_mem_take hrow)
  refine ⟨⟨front.take start, back.drop kept, ?_, fun row hrow => ?_⟩, ?_, ?_⟩
  · calc front ++ changed ++ back
        = (front.take start ++ front.drop start) ++ changed ++
            (back.take kept ++ back.drop kept) := by
          rw [List.take_append_drop, List.take_append_drop]
      _ = _ := by simp only [List.append_assoc]
  · have hequal : row.isEqual = true := by
      rcases List.mem_append.mp hrow with hrow | hrow
      · exact hfront row (List.mem_of_mem_take hrow)
      · exact hback row (List.mem_of_mem_drop hrow)
    exact of_decide_eq_true hequal
  · rw [takeWhile_lead hlead hfirst, List.length_drop]
    omega
  · rw [takeWhile_trail htrail hlast, List.length_reverse, List.length_take]
    omega

/-- Rows with a change are shown with all their changes. -/
theorem trimHunk_of_changed (h : rows.all DiffLine.isEqual = false) :
    ∃ hunk, trimHunk rows = some hunk ∧ ShowsChanges rows hunk := by
  obtain ⟨front, changed, back, rfl, hfront, hback, hfirst, hlast⟩ := exists_changed h
  obtain ⟨first, hfirstMem, hfirstNe⟩ := hfirst
  obtain ⟨last, hlastMem, hlastNe⟩ := hlast
  have hpos : 0 < changed.length := by
    obtain ⟨rest, rfl⟩ := List.head?_eq_some_iff.mp hfirstMem
    exact Nat.succ_pos _
  -- The first change and the last one stop the skipping of blank context.
  have hstop : ∃ row ∈ (front ++ changed ++ back)[front.length]?, row.isBlank = false := by
    refine ⟨first, ?_, DiffLine.isBlank_of_changed hfirstNe⟩
    rw [List.append_assoc, List.getElem?_append_right le_rfl, Nat.sub_self,
      List.getElem?_append_left hpos, ← List.head?_eq_getElem?]
    exact hfirstMem
  have hstop' : ∃ row ∈ (front ++ changed ++ back)[front.length + changed.length - 1]?,
      row.isBlank = false := by
    refine ⟨last, ?_, DiffLine.isBlank_of_changed hlastNe⟩
    have hindex : front.length + changed.length - 1 - front.length = changed.length - 1 := by omega
    rw [List.append_assoc, List.getElem?_append_right (by omega), hindex,
      List.getElem?_append_left (by omega), ← List.getLast?_eq_getElem?]
    exact hlastMem
  have hlen : (front ++ changed ++ back).length = front.length + changed.length + back.length := by
    simp only [List.length_append]
  unfold trimHunk
  rw [h, if_neg Bool.false_ne_true]
  dsimp only
  rw [takeWhile_lead hfront ⟨first, hfirstMem, hfirstNe⟩,
    takeWhile_trail hback ⟨last, hlastMem, hlastNe⟩, List.length_reverse, hlen]
  have hfirstLe : front.length - maxContext ≤ front.length := Nat.sub_le _ _
  have hforward := skipForward_bounds hstop
    (front.length + changed.length + back.length - (back.length - maxContext) -
      (front.length - maxContext)) hfirstLe
  generalize skipForward (front ++ changed ++ back) _ _ = start at hforward ⊢
  have hlastLt : front.length + changed.length - 1 <
      front.length + changed.length + back.length - (back.length - maxContext) := by omega
  have hbackward := skipBackward_bounds hstop'
    (front.length + changed.length + back.length - (back.length - maxContext) - start) hlastLt
  generalize skipBackward (front ++ changed ++ back) _ _ = stop at hbackward ⊢
  rw [if_pos (by omega)]
  have hcut : ((front ++ changed ++ back).take stop).drop start =
      front.drop start ++ changed ++ back.take (stop - (front.length + changed.length)) := by
    rw [List.take_append, List.length_append, List.take_of_length_le (by rw [List.length_append]; omega),
      List.append_assoc, List.drop_append_of_le_length (by omega), List.append_assoc]
  exact ⟨_, rfl, hcut ▸ showsChanges_cut hfront hback ⟨first, hfirstMem, hfirstNe⟩
    ⟨last, hlastMem, hlastNe⟩ (by omega) (by omega)⟩

/-- Nothing is shown where nothing changed. -/
theorem trimHunk_of_equal (h : rows.all DiffLine.isEqual = true) : trimHunk rows = none := by
  rw [trimHunk, if_pos h]

end Trim

end Ezer.PagerDiff
