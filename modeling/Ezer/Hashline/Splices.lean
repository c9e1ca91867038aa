import Ezer.Hashline.Anchors
import Ezer.Lib.Splice
import Mathlib.Algebra.Ring.Int.Defs

/-!
# A batch of edits as one splice

The operations of an accepted batch are ranges of the old lines that stand
apart. Making them from the last line to the first is making them all at once,
and the details of the result are the edits that undo them.
-/

namespace Ezer.Hashline

open Ezer.Lib

/-- The edit that an operation makes. -/
def ResolvedOp.toEdit (op : ResolvedOp) : Edit Text := ⟨op.start, op.stop, op.newLines⟩

/-- What a resolved operation is: a range of lines that is replaced, or a place at which lines are
put in. -/
structure ResolvedOp.InBounds (op : ResolvedOp) (count : ℕ) : Prop where
  range : op.start ≤ op.stop
  stop_le : op.stop ≤ count
  inserts : op.start = op.stop → op.newLines ≠ []
  newline_not_mem : ∀ line ∈ op.newLines, '\n' ∉ line

section Resolve

variable {anchor : Text} {ls : List Text} {scheme : AnchorScheme} {i : ℕ}

theorem lt_of_validateAnchor (h : validateAnchor anchor ls scheme = .ok i) : i < ls.length := by
  obtain ⟨a, ha, -⟩ := validateAnchor_ok h
  obtain ⟨i', line, hline, rfl⟩ := line_of_mem_generateAnchors (List.mem_of_getElem? ha)
  rw [getElem?_generateAnchors] at ha
  by_contra hle
  rw [List.getElem?_eq_none (not_lt.mp hle)] at ha
  cases ha

theorem of_resolveEnd {endAnchor : Option Text} {start stop : ℕ} (hstart : start < ls.length)
    (h : resolveEnd endAnchor start ls scheme = .ok stop) : start < stop ∧ stop ≤ ls.length := by
  cases endAnchor with
  | none =>
    cases h
    exact ⟨Nat.lt_succ_self start, hstart⟩
  | some ea =>
    rw [resolveEnd] at h
    split at h
    · cases h
    · rename_i e hvalid
      split at h
      · cases h
      · cases h
        have hlt := lt_of_validateAnchor hvalid
        omega

theorem resolveInsertAt_le (h : resolveInsertAt anchor ls scheme = .ok i) : i ≤ ls.length := by
  unfold resolveInsertAt at h
  split at h
  · cases h
    exact Nat.zero_le _
  · split at h
    · cases h
      split
      · exact Nat.sub_le _ _
      · exact le_rfl
    · cases hvalid : validateAnchor anchor ls scheme with
      | error e =>
        rw [hvalid] at h
        cases h
      | ok line =>
        rw [hvalid] at h
        cases h
        exact lt_of_validateAnchor hvalid

theorem resolveOp_inBounds {op : HashlineOp} {idx : ℕ} {r : ResolvedOp}
    (h : resolveOp op idx ls scheme = .ok r) : r.originalIdx = idx ∧ r.InBounds ls.length := by
  unfold resolveOp at h
  cases op with
  | replace anchor endAnchor content =>
    dsimp only at h
    split at h
    · cases h
    · rename_i start hstart
      split at h
      · cases h
      · rename_i stop hstop
        obtain ⟨hlt, hle⟩ := of_resolveEnd (lt_of_validateAnchor hstart) hstop
        split at h
        · cases h
        · cases h
          exact ⟨rfl, hlt.le, hle, fun heq => absurd heq hlt.ne,
            fun line hline => newline_not_mem_lines hline⟩
  | insertAfter anchor content =>
    dsimp only at h
    split at h
    · cases h
    · rename_i insertAt hinsert
      split at h
      · cases h
      · cases h
        have hle := resolveInsertAt_le hinsert
        by_cases hempty : content.isEmpty = true
        · rw [if_pos hempty]
          refine ⟨rfl, le_rfl, hle, fun _ => List.cons_ne_nil _ _, fun line hline => ?_⟩
          rw [List.mem_singleton.mp hline]
          exact List.not_mem_nil
        · rw [if_neg hempty]
          exact ⟨rfl, le_rfl, hle, fun _ => lines_ne_nil fun hnil => hempty (by rw [hnil]; rfl),
            fun line hline => newline_not_mem_lines hline⟩
  | write content => cases h

/-- All operations of a resolved batch are in bounds, and in the order of the request. -/
theorem resolveOps_inBounds {count idx : ℕ} {ops : List HashlineOp} {rs : List ResolvedOp}
    (h : resolveOps count ls scheme idx ops = .ok rs) :
    rs.map ResolvedOp.originalIdx = List.range' idx ops.length ∧
      ∀ r ∈ rs, r.InBounds ls.length := by
  induction ops generalizing idx rs with
  | nil =>
    cases h
    exact ⟨rfl, fun _ hr => absurd hr List.not_mem_nil⟩
  | cons op ops ih =>
    rw [resolveOps] at h
    split at h
    · cases h
    · rename_i r hr
      split at h
      · cases h
      · rename_i rest hrest
        cases h
        obtain ⟨hidx, hbounds⟩ := resolveOp_inBounds hr
        obtain ⟨hindices, hall⟩ := ih hrest
        refine ⟨?_, List.forall_mem_cons.mpr ⟨hbounds, hall⟩⟩
        rw [List.map_cons, hidx, hindices, List.length_cons, List.range'_succ]

end Resolve

/-- An operation neither starts within the lines that another one replaces, nor the other way. -/
def ResolvedOp.Clear (a b : ResolvedOp) : Prop :=
  ¬(a.start ≤ b.start ∧ b.start < a.stop) ∧ ¬(b.start ≤ a.start ∧ a.start < b.stop)

/-- The order in which the operations of a batch stand in the old lines. -/
def ResolvedOp.Above (a b : ResolvedOp) : Prop :=
  a.start < b.start ∨ (a.start = b.start ∧ a.originalIdx ≤ b.originalIdx)

/-- The operations of a batch from the first line to the last, the other way round than they are
made. -/
def topDown (ops : List ResolvedOp) : List ResolvedOp := (List.insertionSort madeBefore ops).reverse

section Overlaps

variable {ops : List ResolvedOp} {count : ℕ}

/-- Ranges sorted by their starts that pass the check come one behind the other. -/
theorem pairwise_of_findOverlap {ranges : List (ℕ × ℕ × ℕ)} (h : findOverlap ranges = none)
    (hsorted : ranges.Pairwise fun a b => a.1 ≤ b.1) :
    ranges.Pairwise fun a b => a.2.1 ≤ b.1 := by
  induction ranges with
  | nil => exact List.Pairwise.nil
  | cons a ranges ih =>
    cases ranges with
    | nil => exact List.pairwise_singleton _ _
    | cons b ranges =>
      rw [findOverlap] at h
      split at h
      · cases h
      · rename_i hle
        have hrest := ih h hsorted.of_cons
        refine List.pairwise_cons.mpr ⟨List.forall_mem_cons.mpr ⟨not_lt.mp hle, ?_⟩, hrest⟩
        intro c hc
        have hbc := (List.pairwise_cons.mp hsorted.of_cons).1 c hc
        exact le_trans (not_lt.mp hle) hbc

theorem of_findInsertionOverlap {ranges : List (ℕ × ℕ × ℕ)} {op : ResolvedOp}
    (h : findInsertionOverlap ranges ops = none) (hop : op ∈ ops) (hinsert : op.start = op.stop) :
    ∀ r ∈ ranges, ¬(r.1 ≤ op.start ∧ op.start < r.2.1) := by
  intro r hr hinside
  have hnone := List.findSome?_eq_none_iff.mp h op hop
  rw [if_neg (not_not.mpr hinsert), Option.map_eq_none_iff, List.find?_eq_none] at hnone
  refine hnone r hr ?_
  rw [Bool.and_eq_true, decide_eq_true_eq, decide_eq_true_eq]
  exact hinside

theorem ResolvedOp.Clear.symm {a b : ResolvedOp} (h : a.Clear b) : b.Clear a := ⟨h.2, h.1⟩

theorem pairwise_clear (hbounds : ∀ op ∈ ops, op.InBounds count) (h : checkOverlaps ops = none) :
    ops.Pairwise ResolvedOp.Clear := by
  unfold checkOverlaps at h
  dsimp only at h
  rw [Option.or_eq_none_iff] at h
  obtain ⟨hoverlap, hinsertion⟩ := h
  have htotal : Std.Total fun a b : ℕ × ℕ × ℕ => a.1 ≤ b.1 := ⟨fun a b => le_total a.1 b.1⟩
  have htrans : IsTrans (ℕ × ℕ × ℕ) fun a b => a.1 ≤ b.1 :=
    ⟨fun _ _ _ hab hbc => le_trans hab hbc⟩
  have hperm := List.perm_insertionSort (fun a b : ℕ × ℕ × ℕ => a.1 ≤ b.1)
    ((ops.filter fun op => op.start ≠ op.stop).map fun op => (op.start, op.stop, op.originalIdx))
  have hbehind := pairwise_of_findOverlap hoverlap (List.pairwise_insertionSort _ _)
  have heither := hperm.pairwise_iff (R := fun a b => a.2.1 ≤ b.1 ∨ b.2.1 ≤ a.1)
    (fun h => h.symm) |>.mp (hbehind.imp Or.inl)
  rw [List.pairwise_map, List.pairwise_filter] at heither
  have hinside : ∀ a ∈ ops, ∀ b ∈ ops, a.start ≠ a.stop → b.start = b.stop →
      ¬(a.start ≤ b.start ∧ b.start < a.stop) := by
    intro a ha b hb hrange hinsert
    have hmem : (a.start, a.stop, a.originalIdx) ∈ List.insertionSort
        (fun a b : ℕ × ℕ × ℕ => a.1 ≤ b.1) ((ops.filter fun op => op.start ≠ op.stop).map
          fun op => (op.start, op.stop, op.originalIdx)) := by
      rw [List.mem_insertionSort]
      exact List.mem_map_of_mem (List.mem_filter.mpr ⟨ha, decide_eq_true hrange⟩)
    exact of_findInsertionOverlap hinsertion hb hinsert _ hmem
  refine heither.imp_of_mem fun {a b} ha hb hab => ?_
  have hbounda := (hbounds a ha).range
  have hboundb := (hbounds b hb).range
  by_cases hrangea : a.start = a.stop
  · by_cases hrangeb : b.start = b.stop
    · exact ⟨by omega, by omega⟩
    · exact ⟨by omega, hinside b hb a ha hrangeb hrangea⟩
  · by_cases hrangeb : b.start = b.stop
    · exact ⟨hinside a ha b hb hrangea hrangeb, by omega⟩
    · have hab := hab (decide_eq_true hrangea) (decide_eq_true hrangeb)
      dsimp only at hab
      exact ⟨by omega, by omega⟩

/-- Operations from the first line to the last that are clear of each other are ordered. -/
theorem ordered_of_clear (hbounds : ∀ op ∈ ops, op.InBounds count)
    (habove : ops.Pairwise ResolvedOp.Above) (hclear : ops.Pairwise ResolvedOp.Clear) :
    Edit.Ordered count 0 (ops.map ResolvedOp.toEdit) := by
  refine Edit.ordered_iff.mpr ⟨Nat.zero_le _, ?_, ?_⟩
  · intro e he
    obtain ⟨op, hop, rfl⟩ := List.mem_map.mp he
    exact ⟨Nat.zero_le _, (hbounds op hop).range, (hbounds op hop).stop_le⟩
  · rw [List.pairwise_map]
    refine (habove.and hclear).imp_of_mem fun {a b} ha hb hab => ?_
    have hrange := (hbounds a ha).range
    have hstart : a.start ≤ b.start := by
      rcases hab.1 with hlt | ⟨heq, -⟩
      · exact hlt.le
      · exact heq.le
    by_contra hlt
    exact hab.2.1 ⟨hstart, not_le.mp hlt⟩

theorem pairwise_above_topDown (ops : List ResolvedOp) :
    (topDown ops).Pairwise ResolvedOp.Above := by
  have htotal : Std.Total madeBefore := by
    refine ⟨fun a b => ?_⟩
    unfold madeBefore
    omega
  have htrans : IsTrans ResolvedOp madeBefore := by
    refine ⟨fun a b c hab hbc => ?_⟩
    unfold madeBefore at *
    omega
  rw [topDown, List.pairwise_reverse]
  refine (List.pairwise_insertionSort madeBefore ops).imp fun {a b} hab => ?_
  rcases hab with hlt | ⟨heq, hle⟩
  · exact Or.inl hlt
  · exact Or.inr ⟨heq, hle⟩

end Overlaps

/-- Lines without the carriage returns before the line feeds between them. -/
def dropReturns : List Text → List Text
  | [] => []
  | [l] => [l]
  | l :: l' :: ls => (stripSuffix '\r' l).getD l :: dropReturns (l' :: ls)

section SplitLines

theorem length_dropReturns (ls : List Text) : (dropReturns ls).length = ls.length := by
  fun_induction dropReturns ls with
  | case1 => rfl
  | case2 l => rfl
  | case3 l l' ls ih => exact congrArg Nat.succ ih

theorem dropReturns_cons (l : Text) {ls : List Text} (h : ls ≠ []) :
    dropReturns (l :: ls) = (stripSuffix '\r' l).getD l :: dropReturns ls := by
  cases ls with
  | nil => exact absurd rfl h
  | cons l' ls => rfl

/-- The lines of a content stand between its line feeds. -/
theorem splitLines_eq (content : Text) :
    splitLines content = dropReturns (content.splitOn '\n') := by
  induction content using line_induction with
  | nil => rfl
  | last x hx hn =>
    have hne : x.isEmpty = false := List.isEmpty_eq_false_iff.mpr hx
    rw [splitLines, hne, if_neg Bool.false_ne_true, endsWithNewline_of_not_mem hn,
      if_neg Bool.false_ne_true, lines_of_not_mem hn hx, List.append_nil,
      List.splitOn_eq_singleton hn]
    rfl
  | line x t hn ih =>
    have hne : (x ++ '\n' :: t).isEmpty = false :=
      List.isEmpty_eq_false_iff.mpr (List.append_ne_nil_of_right_ne_nil _ (List.cons_ne_nil _ _))
    rw [List.splitOn_append_cons_self, List.splitOn_eq_singleton hn, List.singleton_append,
      dropReturns_cons _ (List.splitOn_ne_nil _ _), ← ih, splitLines, hne,
      if_neg Bool.false_ne_true, lines_append_newline hn, List.cons_append]
    congr 1
    by_cases ht : t = []
    · subst ht
      rw [endsWithNewline_concat, if_pos rfl]
      rfl
    · have hends : endsWithNewline (x ++ '\n' :: t) = endsWithNewline t := by
        rw [List.append_cons]
        exact endsWithNewline_append _ ht
      rw [hends, splitLines, List.isEmpty_eq_false_iff.mpr ht, if_neg Bool.false_ne_true]

/-- Joined lines are cut where they were joined. -/
theorem splitOn_joinLines {ls : List Text} (h : ∀ l ∈ ls, '\n' ∉ l) (hne : ls ≠ []) :
    (joinLines ls).splitOn '\n' = ls :=
  List.splitOn_intercalate '\n' h hne

theorem length_le_splitLines_joinLines {ls : List Text} (h : ∀ l ∈ ls, '\n' ∉ l) :
    ls.length ≤ (splitLines (joinLines ls)).length := by
  by_cases hne : ls = []
  · rw [hne]
    exact Nat.zero_le _
  · rw [splitLines_eq, length_dropReturns, splitOn_joinLines h hne]

end SplitLines

/-- The lines that a text stands for: those between its line feeds, and also none if it is
empty. -/
def Reads (text : Text) (ls : List Text) : Prop := ls = text.splitOn '\n' ∨ text = [] ∧ ls = []

/-- A detail tells the lines of an edit and where they are, in the old lines and in the new. -/
structure Describes (d : EditRegionDetail) (edit undo : Edit Text) : Prop where
  oldLine : d.oldLine = edit.start + 1
  oldText : Reads d.oldText undo.lines
  newLine : d.newLine = undo.start + 1
  newText : Reads d.newText edit.lines

/-- The lines that some operations add to the file, less those that they take away. -/
def cumulativeShift (ops : List ResolvedOp) : ℤ :=
  (ops.map fun op => (op.newLines.length : ℤ) - ((op.stop - op.start : ℕ) : ℤ)).sum

/-- No window of lines that is shown ends before it starts. -/
structure Windowed (regions : List (ℕ × ℕ)) (total : ℕ) : Prop where
  whole : ∀ first last, regions.head? = some first → regions.getLast? = some last →
    first.1 - snippetContext ≤ min (last.2 + snippetContext) total
  merged : ∀ r ∈ regions.foldl (mergeRegion total) [], r.1 ≤ r.2

section Details

variable {ls : List Text} {ops : List ResolvedOp} {count pos off : ℕ} {shift : ℤ}

theorem reads_joinLines (h : ∀ l ∈ ls, '\n' ∉ l) : Reads (joinLines ls) ls := by
  by_cases hne : ls = []
  · exact Or.inr ⟨by rw [hne]; rfl, hne⟩
  · exact Or.inl (splitOn_joinLines h hne).symm

theorem foldl_spliceLines (ls : List Text) (ops : List ResolvedOp) :
    ops.reverse.foldl spliceLines ls =
      (ops.map ResolvedOp.toEdit).foldr (fun e ls => Edit.apply ls e) ls := by
  rw [List.foldl_reverse, List.foldr_map]
  rfl

theorem editRegions_eq (h : Edit.Ordered ls.length pos (ops.map ResolvedOp.toEdit))
    (hoff : (off : ℤ) = pos + shift) :
    editRegions ls shift ops =
      (ops.zip (Edit.undosFrom ls pos off (ops.map ResolvedOp.toEdit))).map fun p =>
        ((p.2.start, p.2.stop),
          ⟨p.1.start + 1, joinLines p.2.lines, p.2.start + 1, joinLines p.1.newLines⟩) := by
  induction ops generalizing pos off shift with
  | nil => rfl
  | cons op ops ih =>
    obtain ⟨hstart, hrange, hrest⟩ := h
    have hstop : op.stop ≤ ls.length := hrest.le_stop
    have hle : op.start ≤ op.stop := hrange
    have hpos : pos ≤ op.start := hstart
    have hshifted : ((op.start : ℤ) + shift).toNat = off + (op.start - pos) := by omega
    have htext : (if op.start < op.stop then joinLines ((getRange ls op.start op.stop).getD [])
        else []) = joinLines ((ls.take op.stop).drop op.start) := by
      rw [List.drop_take]
      by_cases hlt : op.start < op.stop
      · rw [if_pos hlt, getRange_eq hle hstop, Option.getD_some]
      · rw [if_neg hlt, Nat.sub_eq_zero_of_le (not_lt.mp hlt), List.take_zero]
        rfl
    rw [List.map_cons, Edit.undosFrom, List.zip_cons_cons, List.map_cons, editRegions]
    dsimp only [ResolvedOp.toEdit] at *
    rw [htext, hshifted, ih hrest]
    omega

theorem shifted_nonneg (h : Edit.Ordered count pos (ops.map ResolvedOp.toEdit))
    (hoff : 0 ≤ (pos : ℤ) + shift) {before after : List ResolvedOp} {op : ResolvedOp}
    (hops : ops = before ++ op :: after) :
    0 ≤ (op.start : ℤ) + (shift + cumulativeShift before) := by
  induction before generalizing ops pos shift with
  | nil =>
    subst hops
    have hpos : pos ≤ op.start := h.1
    rw [cumulativeShift, List.map_nil, List.sum_nil]
    omega
  | cons op' before ih =>
    subst hops
    obtain ⟨hstart, hrange, hrest⟩ := h
    have hpos : pos ≤ op'.start := hstart
    have hle : op'.start ≤ op'.stop := hrange
    have hnext := @ih _ op'.stop
      (shift + ((op'.newLines.length : ℤ) - ((op'.stop - op'.start : ℕ) : ℤ))) hrest (by omega) rfl
    rw [cumulativeShift, List.map_cons, List.sum_cons, ← Int.add_assoc shift]
    exact hnext

theorem windowed {regions : List (ℕ × ℕ)} {total : ℕ}
    (hsorted : regions.Pairwise fun a b => a.1 ≤ b.1)
    (hregions : ∀ r ∈ regions, r.1 ≤ r.2 ∧ r.2 ≤ total) : Windowed regions total := by
  constructor
  · intro first last hfirst hlast
    have hmem := List.mem_of_getLast? hlast
    have hle : first.1 ≤ last.1 := by
      cases regions with
      | nil => cases hfirst
      | cons r regions =>
        cases hfirst
        rcases List.mem_cons.mp hmem with rfl | hmem
        · exact le_rfl
        · exact (List.pairwise_cons.mp hsorted).1 last hmem
    have hlast := hregions last hmem
    omega
  · suffices h : ∀ (regions merged : List (ℕ × ℕ)), (∀ r ∈ regions, r.1 ≤ r.2 ∧ r.2 ≤ total) →
        (∀ r ∈ merged, r.1 ≤ r.2) →
        ∀ r ∈ regions.foldl (mergeRegion total) merged, r.1 ≤ r.2 from
      h regions [] hregions fun _ hr => absurd hr List.not_mem_nil
    intro regions
    induction regions with
    | nil => exact fun merged _ hmerged => hmerged
    | cons region regions ih =>
      intro merged hregions hmerged
      rw [List.forall_mem_cons] at hregions
      refine ih _ hregions.2 fun r hr => ?_
      have hwindow : region.1 - snippetContext ≤ min (region.2 + snippetContext) total := by omega
      unfold mergeRegion at hr
      dsimp only at hr
      split at hr
      · rcases List.mem_append.mp hr with hr | hr
        · exact hmerged r hr
        · rw [List.mem_singleton.mp hr]
          exact hwindow
      · rename_i last hlast
        have hle := hmerged last (List.mem_of_getLast? hlast)
        split at hr
        · rcases List.mem_append.mp hr with hr | hr
          · exact hmerged r ((List.dropLast_subset merged) hr)
          · rw [List.mem_singleton.mp hr]
            exact le_trans hle (le_max_left _ _)
        · rcases List.mem_append.mp hr with hr | hr
          · exact hmerged r hr
          · rw [List.mem_singleton.mp hr]
            exact hwindow

end Details

/-- The edits that some operations make. -/
def toEdits (ops : List ResolvedOp) : List (Edit Text) := ops.map ResolvedOp.toEdit

/-- An accepted batch is one splice of the old lines, made by its operations as they stand in the
old lines. Its details are the edits that undo it, and no subtraction ends below zero. -/
structure IsSplice (old new : List Text) (resolved : List ResolvedOp) (result : ApplyResult)
    (sorted : List ResolvedOp) (undos : List (Edit Text)) : Prop where
  perm : sorted.Perm resolved
  above : sorted.Pairwise ResolvedOp.Above
  ordered : Edit.Ordered old.length 0 (toEdits sorted)
  splice : Edit.splice old (toEdits sorted) = new
  newContent : result.newContent = some (joinLines new)
  undoes : Edit.Undoes old new (toEdits sorted) undos
  details : List.Forall₂ (fun d p => Describes d p.1 p.2) result.editDetails
    ((toEdits sorted).zip undos)
  ranges : ∀ op ∈ sorted, op.start ≤ op.stop
  shifted : ∀ before op after, sorted = before ++ op :: after →
    0 ≤ (op.start : ℤ) + cumulativeShift before
  windows : Windowed
    (List.insertionSort (fun a b => a.1 ≤ b.1) ((editRegions old 0 sorted).map Prod.fst))
    (splitLines (joinLines new)).length

section Batch

variable {content filePath : Text} {ops : List HashlineOp} {scheme : AnchorScheme}
  {resolved : List ResolvedOp} {count : ℕ}

/-- No line of a spliced content has a line feed in it. -/
theorem newline_not_mem_splice {ls : List Text} {es : List (Edit Text)} {pos : ℕ}
    (hls : ∀ l ∈ ls, '\n' ∉ l) (hes : ∀ e ∈ es, ∀ l ∈ e.lines, '\n' ∉ l) :
    ∀ l ∈ Edit.spliceFrom ls pos es, '\n' ∉ l := by
  induction es generalizing pos with
  | nil => exact fun l hl => hls l (List.mem_of_mem_drop hl)
  | cons e es ih =>
    rw [List.forall_mem_cons] at hes
    intro l hl
    rw [Edit.spliceFrom, List.mem_append, List.mem_append] at hl
    rcases hl with (hl | hl) | hl
    · exact hls l (List.mem_of_mem_take (List.mem_of_mem_drop hl))
    · exact hes.1 l hl
    · exact ih hes.2 l hl

/-- Resolved operations that do not overlap are made as one splice. -/
theorem applyResolved_isSplice {old : List Text} (hold : ∀ l ∈ old, '\n' ∉ l)
    (hbounds : ∀ op ∈ resolved, op.InBounds old.length) (hclear : checkOverlaps resolved = none) :
    IsSplice old (Edit.splice old (toEdits (topDown resolved))) resolved
      (applyResolved count old resolved filePath scheme) (topDown resolved)
      (Edit.undos old (toEdits (topDown resolved))) := by
  let sorted := topDown resolved
  let new := Edit.splice old (toEdits sorted)
  have hperm : sorted.Perm resolved :=
    (List.reverse_perm _).trans (List.perm_insertionSort _ resolved)
  have hall : ∀ op ∈ sorted, op.InBounds old.length :=
    fun op hop => hbounds op (hperm.subset hop)
  have habove : sorted.Pairwise ResolvedOp.Above := pairwise_above_topDown resolved
  have hordered := ordered_of_clear hall habove
    ((hperm.pairwise_iff fun h => h.symm).mpr (pairwise_clear hbounds hclear))
  have hundoes := Edit.undoes_undos hordered
  have hsplice : (List.insertionSort madeBefore resolved).foldl spliceLines old = new := by
    show _ = Edit.splice old (sorted.map ResolvedOp.toEdit)
    rw [← Edit.foldr_apply_eq_splice hordered, ← foldl_spliceLines]
    exact congrArg (List.foldl spliceLines old) (List.reverse_reverse _).symm
  have hnewline : ∀ l ∈ new, '\n' ∉ l := by
    refine newline_not_mem_splice hold fun e he => ?_
    obtain ⟨op, hop, rfl⟩ := List.mem_map.mp he
    exact (hall op hop).newline_not_mem
  have hregions : editRegions old 0 sorted = _ := @editRegions_eq old sorted 0 0 0 hordered rfl
  refine ⟨hperm, habove, hordered, rfl, ?_,
    hundoes, ?_, fun op hop => (hall op hop).range, fun before op after hops => ?_, ?_⟩
  · show some (joinLines _) = _
    rw [hsplice]
  · show List.Forall₂ _ ((editRegions old 0 sorted).map Prod.snd) _
    have hzip : (toEdits sorted).zip (Edit.undos old (toEdits sorted)) =
        (sorted.zip (Edit.undos old (toEdits sorted))).map (Prod.map ResolvedOp.toEdit id) :=
      List.zip_map_left
    rw [hregions, List.map_map, hzip, List.forall₂_map_left_iff, List.forall₂_map_right_iff]
    refine List.forall₂_same.mpr fun p hp => ?_
    have hop := hall p.1 (List.of_mem_zip hp).1
    have hmem : (p.1.toEdit, p.2) ∈ (toEdits sorted).zip (Edit.undos old (toEdits sorted)) := by
      rw [hzip]
      exact List.mem_map_of_mem hp
    have hslice := hundoes.slices _ hmem
    refine ⟨rfl, reads_joinLines ?_, rfl, reads_joinLines hop.newline_not_mem⟩
    rw [← hslice.2]
    exact fun l hl => hold l (List.mem_of_mem_take (List.mem_of_mem_drop hl))
  · have hshifted := @shifted_nonneg sorted _ 0 0 hordered le_rfl _ _ _ hops
    rwa [Int.zero_add] at hshifted
  · have htotal : Std.Total fun a b : ℕ × ℕ => a.1 ≤ b.1 := ⟨fun a b => le_total a.1 b.1⟩
    have htrans : IsTrans (ℕ × ℕ) fun a b => a.1 ≤ b.1 :=
      ⟨fun _ _ _ hab hbc => le_trans hab hbc⟩
    refine windowed (List.pairwise_insertionSort _ _) fun r hr => ?_
    rw [List.mem_insertionSort, hregions, List.map_map] at hr
    obtain ⟨p, hp, rfl⟩ := List.mem_map.mp hr
    have hundo := (Edit.ordered_iff.mp hundoes.ordered).2.1 p.2 (List.of_mem_zip hp).2
    exact ⟨hundo.2.1, le_trans hundo.2.2 (length_le_splitLines_joinLines hnewline)⟩

/-- A batch without a write is rejected, or all of its operations are made as one splice of the old
lines, and its details undo it. -/
theorem applyEdits_isSplice (hops : ∀ newContent, ops ≠ [.write newContent]) :
    (∃ e, applyEdits content ops filePath scheme = rejected e) ∨
      ∃ resolved, resolveOps ops.length (splitLines content) scheme 0 ops = .ok resolved ∧
        resolved.map ResolvedOp.originalIdx = List.range ops.length ∧
        ∃ new sorted undos, IsSplice (splitLines content) new resolved
          (applyEdits content ops filePath scheme) sorted undos := by
  unfold applyEdits
  split
  · rename_i newContent
    exact absurd rfl (hops newContent)
  · dsimp only
    split
    · exact Or.inl ⟨_, rfl⟩
    · rename_i resolved hresolved
      split
      · exact Or.inl ⟨_, rfl⟩
      · rename_i hclear
        obtain ⟨hindices, hbounds⟩ := resolveOps_inBounds hresolved
        refine Or.inr ⟨resolved, hresolved, ?_, ?_⟩
        · rw [hindices, List.range_eq_range']
        · exact ⟨_, _, _, applyResolved_isSplice (fun l hl => newline_not_mem_splitLines hl) hbounds
            hclear⟩

end Batch

/-- A scheme of the hashes of lines. -/
def contentScheme : AnchorScheme := .contentOnly defaultHashLen

/-- Put a line in front of a file. -/
def putInFront : List HashlineOp := [.insertAfter ['0', ':'] ['x']]

/-- Replace the first line of a file, which is empty. -/
def replaceBlank : List HashlineOp := [.replace ['1', ':', 'd', 'd', 'g'] none ['x']]

/-- A line put in front of a file is a splice. -/
theorem putInFront_isSplice :
    (∃ e, applyEdits ['b'] putInFront ['f'] contentScheme = rejected e) ∨
      ∃ resolved, resolveOps 1 (splitLines ['b']) contentScheme 0 putInFront = .ok resolved ∧
        resolved.map ResolvedOp.originalIdx = List.range 1 ∧
        ∃ new sorted undos, IsSplice (splitLines ['b']) new resolved
          (applyEdits ['b'] putInFront ['f'] contentScheme) sorted undos :=
  applyEdits_isSplice fun _ h => by cases h

theorem applyEdits_putInFront :
    (applyEdits ['b'] putInFront ['f'] contentScheme).newContent = some ['x', '\n', 'b'] ∧
      (applyEdits ['b'] putInFront ['f'] contentScheme).editDetails = [⟨1, [], 1, ['x']⟩] :=
  ⟨rfl, rfl⟩

theorem applyEdits_replaceBlank :
    (applyEdits ['\n', 'b'] replaceBlank ['f'] contentScheme).newContent = some ['x', '\n', 'b'] ∧
      (applyEdits ['\n', 'b'] replaceBlank ['f'] contentScheme).editDetails =
        [⟨1, [], 1, ['x']⟩] :=
  ⟨rfl, rfl⟩

/-- Details cannot be undone: a line put in front of a file has the details of a line that replaces
an empty one. -/
theorem not_undone_by_details :
    ¬∃ undo : List EditRegionDetail → List Text → List Text,
      ∀ (content filePath newContent : Text) (ops : List HashlineOp) (scheme : AnchorScheme),
        (∀ c, HashlineOp.write c ∉ ops) →
        (applyEdits content ops filePath scheme).newContent = some newContent →
        undo (applyEdits content ops filePath scheme).editDetails (splitLines newContent) =
          splitLines content := by
  rintro ⟨undo, h⟩
  have hfront := h ['b'] ['f'] _ putInFront contentScheme (by simp [putInFront])
    applyEdits_putInFront.1
  have hblank := h ['\n', 'b'] ['f'] _ replaceBlank contentScheme (by simp [replaceBlank])
    applyEdits_replaceBlank.1
  rw [applyEdits_putInFront.2] at hfront
  rw [applyEdits_replaceBlank.2, hfront] at hblank
  exact absurd hblank (by decide)

end Ezer.Hashline
