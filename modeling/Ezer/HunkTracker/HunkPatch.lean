import Ezer.HunkTracker.PatchExact
import Ezer.Lib.Decimal

/-!
# Patch fragments of single hunks

A hunk is shown as a fragment of a unified diff: a header with a start and a
count for each text, then context, deleted lines, added lines and context. The
context before the change is cut from the baseline, the context after it from
the current text, and both starts in the header are those of the baseline.
-/

namespace Ezer.HunkTracker

open Ezer.Lib

/-- The lines of context around a change. -/
def contextLines : ℕ := 3

/-- A fragment of a unified diff: the numbers of its header and its body, in
which an equal line is context. -/
structure HunkPatch where
  oldStart : ℕ
  oldCount : ℕ
  newStart : ℕ
  newCount : ℕ
  body : List Change
  deriving DecidableEq

/-- The character in front of a body line. -/
def ChangeTag.sign : ChangeTag → Char
  | .equal => ' '
  | .delete => '-'
  | .insert => '+'

namespace HunkPatch

/-- The header `@@ -10,5 +10,7 @@`. -/
def header (p : HunkPatch) : Text :=
  ['@', '@', ' ', '-'] ++ digits p.oldStart ++ [','] ++ digits p.oldCount ++ [' ', '+'] ++
    digits p.newStart ++ [','] ++ digits p.newCount ++ [' ', '@', '@']

/-- The fragment as text, one line for the header and each body line. -/
def render (p : HunkPatch) : Text :=
  p.header ++ '\n' :: p.body.flatMap fun c => c.tag.sign :: c.value ++ ['\n']

end HunkPatch

/-- A subtraction of machine integers, which must not underflow. -/
def checkedSub (a b : ℕ) : Option ℕ := if b ≤ a then some (a - b) else none

/-- The lines with indices from one bound up to another, as far as they exist. -/
def lineRange (ls : List Text) (start stop : ℕ) : List Text := (ls.take stop).drop start

/-- The patch fragment of a single hunk; `none` is an arithmetic underflow. -/
def generateHunkPatch (baseline current : Text) (hunk : Hunk) : Option HunkPatch := do
  let oldLines := lines baseline
  let newLines := lines current
  let oldStartIdx := hunk.lineInfo.oldStart - 1
  let newStartIdx := hunk.lineInfo.newStart - 1
  let contextBeforeStart := oldStartIdx - contextLines
  let changesEndNew := newStartIdx + hunk.lineInfo.newCount
  let contextAfterEnd := min (changesEndNew + contextLines) newLines.length
  let changesEndOld := oldStartIdx + hunk.lineInfo.oldCount
  let contextAfterEndOld := min (changesEndOld + contextLines) oldLines.length
  let before ← checkedSub oldStartIdx contextBeforeStart
  let afterOld ← checkedSub contextAfterEndOld changesEndOld
  let afterNew ← checkedSub contextAfterEnd changesEndNew
  return {
    oldStart := contextBeforeStart + 1
    oldCount := before + hunk.lineInfo.oldCount + afterOld
    newStart := contextBeforeStart + 1
    newCount := before + hunk.lineInfo.newCount + afterNew
    body := (lineRange oldLines contextBeforeStart oldStartIdx).map (Change.mk .equal) ++
      (lines (hunk.oldText.getD [])).map (Change.mk .delete) ++
      (lines hunk.newText).map (Change.mk .insert) ++
      (lineRange newLines changesEndNew contextAfterEnd).map (Change.mk .equal) }

/-- Every context line of a body stands in both texts where the lines before it
lead to. -/
def ContextAt (old new : List Text) : ℕ → ℕ → List Change → Prop
  | _, _, [] => True
  | i, j, ⟨.equal, v⟩ :: cs =>
    old[i]? = some v ∧ new[j]? = some v ∧ ContextAt old new (i + 1) (j + 1) cs
  | i, j, ⟨.delete, _⟩ :: cs => ContextAt old new (i + 1) j cs
  | i, j, ⟨.insert, _⟩ :: cs => ContextAt old new i (j + 1) cs

namespace HunkPatch

/-- The context lines in front of the change. -/
def leading (p : HunkPatch) : List Change := p.body.takeWhile fun c => c.tag = .equal

/-- A well-formed fragment for a hunk: the header counts are those of the body,
its starts lie as many lines before the hunk as there is context in front, and
the context stands in both texts. -/
structure WellFormed (baseline current : Text) (hunk : Hunk) (p : HunkPatch) : Prop where
  oldCount_eq : p.oldCount = (oldSide p.body).length
  newCount_eq : p.newCount = (newSide p.body).length
  oldStart_eq : p.oldStart + p.leading.length = hunk.lineInfo.oldStart
  newStart_eq : p.newStart + p.leading.length = hunk.lineInfo.newStart
  context : ContextAt (lines baseline) (lines current) (p.oldStart - 1) (p.newStart - 1) p.body

end HunkPatch

section Sides

@[simp] theorem oldSide_map_equal (xs : List Text) : oldSide (xs.map (Change.mk .equal)) = xs := by
  induction xs with
  | nil => rfl
  | cons x xs ih => simp [ih]

@[simp] theorem oldSide_map_delete (xs : List Text) : oldSide (xs.map (Change.mk .delete)) = xs := by
  induction xs with
  | nil => rfl
  | cons x xs ih => simp [ih]

@[simp] theorem oldSide_map_insert (xs : List Text) : oldSide (xs.map (Change.mk .insert)) = [] := by
  induction xs with
  | nil => rfl
  | cons x xs ih => simp [ih]

@[simp] theorem newSide_map_equal (xs : List Text) : newSide (xs.map (Change.mk .equal)) = xs := by
  induction xs with
  | nil => rfl
  | cons x xs ih => simp [ih]

@[simp] theorem newSide_map_delete (xs : List Text) : newSide (xs.map (Change.mk .delete)) = [] := by
  induction xs with
  | nil => rfl
  | cons x xs ih => simp [ih]

@[simp] theorem newSide_map_insert (xs : List Text) : newSide (xs.map (Change.mk .insert)) = xs := by
  induction xs with
  | nil => rfl
  | cons x xs ih => simp [ih]

end Sides

section Context

variable {old new : List Text}

theorem contextAt_append {i j : ℕ} {as bs : List Change} :
    ContextAt old new i j (as ++ bs) ↔
      ContextAt old new i j as ∧
        ContextAt old new (i + (oldSide as).length) (j + (newSide as).length) bs := by
  induction as generalizing i j with
  | nil => simp [ContextAt]
  | cons a as ih =>
    obtain ⟨tag, v⟩ := a
    cases tag with
    | equal =>
      simp only [List.cons_append, ContextAt, ih, oldSide_equal, newSide_equal, List.length_cons]
      rw [Nat.add_right_comm i, Nat.add_right_comm j, and_assoc, and_assoc, Nat.add_assoc,
        Nat.add_assoc j]
    | delete =>
      simp only [List.cons_append, ContextAt, ih, oldSide_delete, newSide_delete, List.length_cons]
      rw [Nat.add_right_comm i, Nat.add_assoc]
    | insert =>
      simp only [List.cons_append, ContextAt, ih, oldSide_insert, newSide_insert, List.length_cons]
      rw [Nat.add_right_comm j, Nat.add_assoc j]

/-- Context alone stands in both texts when it continues both. -/
theorem contextAt_map_equal {i j : ℕ} {xs : List Text} :
    ContextAt old new i j (xs.map (Change.mk .equal)) ↔ xs <+: old.drop i ∧ xs <+: new.drop j := by
  induction xs generalizing i j with
  | nil => simp [ContextAt]
  | cons x xs ih =>
    have hcons : ∀ (ls : List Text) (k : ℕ),
        x :: xs <+: ls.drop k ↔ ls[k]? = some x ∧ xs <+: ls.drop (k + 1) := by
      intro ls k
      rw [← List.head?_drop, ← List.tail_drop]
      cases ls.drop k with
      | nil => simp
      | cons y ys => simp [List.cons_prefix_cons, eq_comm]
    rw [List.map_cons, ContextAt, ih, hcons, hcons]
    tauto

@[simp] theorem contextAt_map_delete {i j : ℕ} (xs : List Text) :
    ContextAt old new i j (xs.map (Change.mk .delete)) := by
  induction xs generalizing i with
  | nil => trivial
  | cons x xs ih => exact ih

@[simp] theorem contextAt_map_insert {i j : ℕ} (xs : List Text) :
    ContextAt old new i j (xs.map (Change.mk .insert)) := by
  induction xs generalizing j with
  | nil => trivial
  | cons x xs ih => exact ih

end Context

section Shape

theorem checkedSub_eq_some {a b c : ℕ} : checkedSub a b = some c ↔ b ≤ a ∧ c = a - b := by
  unfold checkedSub
  split
  · rename_i h
    simp [h, eq_comm]
  · rename_i h
    simp [h]

/-- The changes of a hunk end inside both texts, as these are cut into lines. -/
structure Hunk.Fits (baseline current : Text) (hunk : Hunk) : Prop where
  old : hunk.lineInfo.oldStart - 1 + hunk.lineInfo.oldCount ≤ (lines baseline).length
  new : hunk.lineInfo.newStart - 1 + hunk.lineInfo.newCount ≤ (lines current).length

namespace Hunk

/-- The context in front of the change. -/
def before (baseline : Text) (hunk : Hunk) : List Text :=
  lineRange (lines baseline) (hunk.lineInfo.oldStart - 1 - contextLines)
    (hunk.lineInfo.oldStart - 1)

/-- The lines the fragment deletes. -/
def removed (hunk : Hunk) : List Text := lines (hunk.oldText.getD [])

/-- The lines the fragment adds. -/
def added (hunk : Hunk) : List Text := lines hunk.newText

/-- The context after the change. -/
def after (current : Text) (hunk : Hunk) : List Text :=
  ((lines current).drop (hunk.lineInfo.newStart - 1 + hunk.lineInfo.newCount)).take contextLines

end Hunk

/-- The fragment of a hunk that ends inside both texts. -/
def fragment (baseline current : Text) (hunk : Hunk) : HunkPatch where
  oldStart := hunk.lineInfo.oldStart - 1 - contextLines + 1
  oldCount := min (hunk.lineInfo.oldStart - 1) contextLines + hunk.lineInfo.oldCount +
    min contextLines
      ((lines baseline).length - (hunk.lineInfo.oldStart - 1 + hunk.lineInfo.oldCount))
  newStart := hunk.lineInfo.oldStart - 1 - contextLines + 1
  newCount := min (hunk.lineInfo.oldStart - 1) contextLines + hunk.lineInfo.newCount +
    min contextLines
      ((lines current).length - (hunk.lineInfo.newStart - 1 + hunk.lineInfo.newCount))
  body := (hunk.before baseline).map (Change.mk .equal) ++ hunk.removed.map (Change.mk .delete) ++
    hunk.added.map (Change.mk .insert) ++ (hunk.after current).map (Change.mk .equal)

theorem lineRange_min (ls : List Text) (start count : ℕ) :
    lineRange ls start (min (start + count) ls.length) = (ls.drop start).take count := by
  rw [lineRange, List.drop_take, List.take_eq_take_iff, List.length_drop]
  omega

/-- The width of a range that is cut at the end. -/
theorem min_add_sub_start (start count length : ℕ) :
    min (start + count) length - start = min count (length - start) := by
  rw [← Nat.sub_min_sub_right, Nat.add_sub_cancel_left]

/-- Nothing underflows exactly when the hunk ends inside both texts. -/
theorem generateHunkPatch_eq_some_iff {baseline current : Text} {hunk : Hunk} {p : HunkPatch} :
    generateHunkPatch baseline current hunk = some p ↔
      hunk.Fits baseline current ∧ p = fragment baseline current hunk := by
  have hrange := lineRange_min (lines current)
    (hunk.lineInfo.newStart - 1 + hunk.lineInfo.newCount) contextLines
  unfold generateHunkPatch
  simp only [Option.bind_eq_bind, Option.bind_eq_some_iff, checkedSub_eq_some, hrange]
  constructor
  · rintro ⟨b, ⟨-, rfl⟩, x, ⟨hx, rfl⟩, y, ⟨hy, rfl⟩, hp⟩
    refine ⟨⟨by omega, by omega⟩, ?_⟩
    obtain rfl := Option.some.inj hp
    simp only [fragment, Hunk.before, Hunk.removed, Hunk.added, Hunk.after, min_add_sub_start,
      Nat.sub_sub_eq_min]
  · rintro ⟨⟨hold, hnew⟩, rfl⟩
    refine ⟨_, ⟨by omega, rfl⟩, _, ⟨by omega, rfl⟩, _, ⟨by omega, rfl⟩, ?_⟩
    simp only [fragment, Hunk.before, Hunk.removed, Hunk.added, Hunk.after, Option.pure_def,
      min_add_sub_start, Nat.sub_sub_eq_min]

end Shape

section Render

variable {p : HunkPatch}

theorem newline_not_mem_header (p : HunkPatch) : '\n' ∉ p.header := by
  have hdigits : ∀ n, '\n' ∉ digits n := by
    intro n h
    have hdigit := isDigit_of_mem_digits h
    revert hdigit
    decide
  simp [HunkPatch.header, hdigits]

/-- A rendered fragment has one line for the header and one for each body line. -/
theorem splitInclusive_render (h : ∀ c ∈ p.body, '\n' ∉ c.value) :
    splitInclusive p.render =
      (p.header ++ ['\n']) :: p.body.map fun c => c.tag.sign :: c.value ++ ['\n'] := by
  rw [HunkPatch.render, splitInclusive_append (newline_not_mem_header p)]
  congr 1
  generalize p.body = body at h
  induction body with
  | nil => rfl
  | cons c body ih =>
    have hline : '\n' ∉ c.tag.sign :: c.value := by
      have hsign : ∀ tag : ChangeTag, tag.sign ≠ '\n' := by
        intro tag
        cases tag <;> decide
      simp [h c (by simp), (hsign c.tag).symm]
    rw [List.flatMap_cons, List.append_assoc, List.singleton_append, splitInclusive_append hline,
      ih fun d hd => h d (by simp [hd]), List.map_cons]

/-- The body lines of a generated patch hold no line feed. -/
theorem newline_not_mem_body {baseline current : Text} {hunk : Hunk}
    (h : generateHunkPatch baseline current hunk = some p) : ∀ c ∈ p.body, '\n' ∉ c.value := by
  obtain ⟨-, rfl⟩ := generateHunkPatch_eq_some_iff.mp h
  intro c hc
  simp only [fragment, List.mem_append, List.mem_map] at hc
  rcases hc with ((⟨l, hl, rfl⟩ | ⟨l, hl, rfl⟩) | ⟨l, hl, rfl⟩) | ⟨l, hl, rfl⟩
  · exact newline_not_mem_lines (List.mem_of_mem_take (List.mem_of_mem_drop hl))
  · exact newline_not_mem_lines hl
  · exact newline_not_mem_lines hl
  · exact newline_not_mem_lines (List.mem_of_mem_drop (List.mem_of_mem_take hl))

end Render

section Fragment

variable {baseline current : Text} {hunk : Hunk}

theorem length_before (h : hunk.Fits baseline current) :
    (hunk.before baseline).length = min (hunk.lineInfo.oldStart - 1) contextLines := by
  have hold := h.old
  rw [Hunk.before, lineRange, List.length_drop, List.length_take]
  omega

theorem length_after (current : Text) (hunk : Hunk) :
    (hunk.after current).length = min contextLines
      ((lines current).length - (hunk.lineInfo.newStart - 1 + hunk.lineInfo.newCount)) := by
  rw [Hunk.after, List.length_take, List.length_drop]

theorem oldSide_fragment (baseline current : Text) (hunk : Hunk) :
    oldSide (fragment baseline current hunk).body =
      hunk.before baseline ++ hunk.removed ++ hunk.after current := by
  simp [fragment]

theorem newSide_fragment (baseline current : Text) (hunk : Hunk) :
    newSide (fragment baseline current hunk).body =
      hunk.before baseline ++ hunk.added ++ hunk.after current := by
  simp [fragment]

/-- The fragment opens with the context before the change. -/
theorem leading_fragment (baseline current : Text) (h : hunk.removed ≠ [] ∨ hunk.added ≠ []) :
    (fragment baseline current hunk).leading.length = (hunk.before baseline).length := by
  have hequal : ∀ (xs : List Text) (cs : List Change),
      (xs.map (Change.mk .equal) ++ cs).takeWhile (fun c => c.tag = .equal) =
        xs.map (Change.mk .equal) ++ cs.takeWhile fun c => c.tag = .equal := by
    intro xs cs
    apply List.takeWhile_append_of_pos
    simp
  have hchange : (hunk.removed.map (Change.mk .delete) ++ (hunk.added.map (Change.mk .insert) ++
      (hunk.after current).map (Change.mk .equal))).takeWhile (fun c => c.tag = .equal) = [] := by
    cases hr : hunk.removed with
    | cons r rs => simp
    | nil =>
      obtain ⟨a, as, ha⟩ := List.exists_cons_of_ne_nil (h.resolve_left (by simp [hr]))
      simp [ha]
  simp only [HunkPatch.leading, fragment, List.append_assoc]
  rw [hequal, hchange, List.append_nil, List.length_map]

/-- The context of a fragment stands in both texts. -/
theorem contextAt_fragment {i j : ℕ} :
    ContextAt (lines baseline) (lines current) i j (fragment baseline current hunk).body ↔
      (hunk.before baseline <+: (lines baseline).drop i ∧
        hunk.before baseline <+: (lines current).drop j) ∧
      hunk.after current <+:
          (lines baseline).drop (i + ((hunk.before baseline).length + hunk.removed.length)) ∧
        hunk.after current <+:
          (lines current).drop (j + ((hunk.before baseline).length + hunk.added.length)) := by
  simp only [fragment, List.append_assoc]
  rw [contextAt_append, contextAt_append, contextAt_append, contextAt_map_equal,
    contextAt_map_equal]
  simp [Nat.add_assoc]

/-- What the surroundings of a hunk must be for its fragment to be right. -/
structure Hunk.WellPlaced (baseline current : Text) (hunk : Hunk) : Prop where
  fits : hunk.Fits baseline current
  aligned : hunk.lineInfo.oldStart = hunk.lineInfo.newStart
  added_length : hunk.added.length = hunk.lineInfo.newCount
  removed_length : hunk.lineInfo.oldCount + min contextLines
      ((lines baseline).length - (hunk.lineInfo.oldStart - 1 + hunk.lineInfo.oldCount)) =
    hunk.removed.length + (hunk.after current).length
  same_before : hunk.before baseline = hunk.before current
  same_after : hunk.after current <+:
    (lines baseline).drop (hunk.lineInfo.oldStart - 1 + hunk.removed.length)

/-- The fragment of a hunk that ends inside both texts is well formed exactly
when the hunk is well placed. -/
theorem wellFormed_fragment_iff (hfits : hunk.Fits baseline current)
    (hstart : 1 ≤ hunk.lineInfo.oldStart) (hchange : hunk.removed ≠ [] ∨ hunk.added ≠ []) :
    (fragment baseline current hunk).WellFormed baseline current hunk ↔
      hunk.WellPlaced baseline current := by
  have hbefore := length_before hfits
  have hafter := length_after current hunk
  have hlead := leading_fragment baseline current hchange
  have hpre : hunk.before baseline <+:
      (lines baseline).drop (hunk.lineInfo.oldStart - 1 - contextLines) := by
    rw [Hunk.before, lineRange, List.drop_take]
    exact List.take_prefix _ _
  have hsame : hunk.before baseline <+:
      (lines current).drop (hunk.lineInfo.oldStart - 1 - contextLines) ↔
        hunk.before baseline = hunk.before current := by
    rw [List.prefix_iff_eq_take, hbefore, Hunk.before, Hunk.before, lineRange, lineRange,
      List.drop_take, List.drop_take]
    have hwidth : hunk.lineInfo.oldStart - 1 - (hunk.lineInfo.oldStart - 1 - contextLines) =
        min (hunk.lineInfo.oldStart - 1) contextLines := Nat.sub_sub_eq_min _ _
    rw [hwidth]
  have hold : hunk.lineInfo.oldStart - 1 - contextLines +
      ((hunk.before baseline).length + hunk.removed.length) =
        hunk.lineInfo.oldStart - 1 + hunk.removed.length := by
    rw [hbefore, ← Nat.add_assoc, Nat.sub_add_min_cancel]
  have hnew : hunk.lineInfo.oldStart - 1 - contextLines +
      ((hunk.before baseline).length + hunk.added.length) =
        hunk.lineInfo.oldStart - 1 + hunk.added.length := by
    rw [hbefore, ← Nat.add_assoc, Nat.sub_add_min_cancel]
  have hstarts : (fragment baseline current hunk).oldStart - 1 =
      hunk.lineInfo.oldStart - 1 - contextLines := rfl
  have hstarts' : (fragment baseline current hunk).newStart - 1 =
      hunk.lineInfo.oldStart - 1 - contextLines := rfl
  constructor
  · rintro ⟨hoc, hnc, hos, hns, hctx⟩
    rw [oldSide_fragment, List.length_append, List.length_append, fragment] at hoc
    rw [newSide_fragment, List.length_append, List.length_append, fragment] at hnc
    rw [hlead, fragment] at hns
    rw [hstarts, hstarts', contextAt_fragment, hsame, hold] at hctx
    dsimp only at hoc hnc hns
    rw [hbefore, Nat.add_right_comm, Nat.sub_add_min_cancel, Nat.sub_add_cancel hstart] at hns
    rw [hbefore, hafter] at hnc
    rw [hbefore, Nat.add_assoc, Nat.add_assoc] at hoc
    exact ⟨hfits, hns, (Nat.add_left_cancel (Nat.add_right_cancel hnc)).symm,
      Nat.add_left_cancel hoc, hctx.1.2, hctx.2.1⟩
  · rintro ⟨-, haligned, hadded, hremoved, hsb, hsa⟩
    refine ⟨?_, ?_, ?_, ?_, ?_⟩
    · rw [oldSide_fragment, List.length_append, List.length_append, fragment]
      dsimp only
      omega
    · rw [newSide_fragment, List.length_append, List.length_append, fragment]
      dsimp only
      omega
    · rw [hlead, fragment]
      dsimp only
      omega
    · rw [hlead, fragment]
      dsimp only
      omega
    · rw [hstarts, hstarts', contextAt_fragment, hsame, hold, hnew]
      refine ⟨⟨hpre, hsb⟩, hsa, ?_⟩
      rw [Hunk.after, haligned, hadded]
      exact List.take_prefix _ _

end Fragment

section Script

/-- A builder holds the changes `mid` of a script after its part `pre`. -/
structure HunkBuilder.Covers (b : HunkBuilder) (pre mid : List Change) : Prop where
  oldStart_eq : b.oldStart = (oldSide pre).length + 1
  newStart_eq : b.newStart = (newSide pre).length + 1
  oldLines_eq : b.oldLines = oldSide mid
  newLines_eq : b.newLines = newSide mid
  mid_ne_nil : mid ≠ []

/-- The builder in progress after the part `pre ++ mid` of a script. -/
private def InProgress (pre mid : List Change) : Option HunkBuilder → Prop
  | none => mid = []
  | some b => b.Covers pre mid

private theorem collectHunks_covers (cs : List Change) :
    ∀ (pre mid : List Change) (cur : Option HunkBuilder) (b : HunkBuilder),
      InProgress pre mid cur →
      b ∈ collectHunks cs ((oldSide (pre ++ mid)).length + 1) ((newSide (pre ++ mid)).length + 1)
        cur →
      ∃ pre' mid' post', pre ++ mid ++ cs = pre' ++ mid' ++ post' ∧ b.Covers pre' mid' := by
  induction cs with
  | nil =>
    intro pre mid cur b hcur hb
    cases cur with
    | none => simp [collectHunks] at hb
    | some c =>
      obtain rfl : b = c := by simpa [collectHunks] using hb
      exact ⟨pre, mid, [], rfl, hcur⟩
  | cons c cs ih =>
    intro pre mid cur b hcur hb
    obtain ⟨tag, v⟩ := c
    cases tag with
    | equal =>
      rw [collectHunks, List.mem_append] at hb
      rcases hb with hb | hb
      · cases cur with
        | none => simp at hb
        | some c =>
          obtain rfl : b = c := by simpa using hb
          exact ⟨pre, mid, ⟨.equal, v⟩ :: cs, rfl, hcur⟩
      · obtain ⟨pre', mid', post', heq, hcov⟩ := ih (pre ++ mid ++ [⟨.equal, v⟩]) [] none b rfl
          (by simpa [Nat.add_assoc] using hb)
        exact ⟨pre', mid', post', by rw [← heq]; simp, hcov⟩
    | delete =>
      have hopen : InProgress pre (mid ++ [⟨.delete, v⟩]) (some ((cur.getD
          ⟨(oldSide (pre ++ mid)).length + 1, (newSide (pre ++ mid)).length + 1, [], []⟩).addOldLine
            v)) := by
        cases cur with
        | none =>
          obtain rfl : mid = [] := hcur
          constructor <;> simp [HunkBuilder.addOldLine]
        | some c =>
          obtain ⟨h₁, h₂, h₃, h₄, -⟩ := (hcur : c.Covers pre mid)
          constructor <;> simp [HunkBuilder.addOldLine, h₁, h₂, h₃, h₄]
      rw [collectHunks] at hb
      obtain ⟨pre', mid', post', heq, hcov⟩ := ih pre (mid ++ [⟨.delete, v⟩]) _ b hopen
        (by simpa [Nat.add_assoc] using hb)
      exact ⟨pre', mid', post', by rw [← heq]; simp, hcov⟩
    | insert =>
      have hopen : InProgress pre (mid ++ [⟨.insert, v⟩]) (some ((cur.getD
          ⟨(oldSide (pre ++ mid)).length + 1, (newSide (pre ++ mid)).length + 1, [], []⟩).addNewLine
            v)) := by
        cases cur with
        | none =>
          obtain rfl : mid = [] := hcur
          constructor <;> simp [HunkBuilder.addNewLine]
        | some c =>
          obtain ⟨h₁, h₂, h₃, h₄, -⟩ := (hcur : c.Covers pre mid)
          constructor <;> simp [HunkBuilder.addNewLine, h₁, h₂, h₃, h₄]
      rw [collectHunks] at hb
      obtain ⟨pre', mid', post', heq, hcov⟩ := ih pre (mid ++ [⟨.insert, v⟩]) _ b hopen
        (by simpa [Nat.add_assoc] using hb)
      exact ⟨pre', mid', post', by rw [← heq]; simp, hcov⟩

theorem exists_covers {cs : List Change} {b : HunkBuilder} (h : b ∈ collectHunks cs 1 1 none) :
    ∃ pre mid post, cs = pre ++ mid ++ post ∧ b.Covers pre mid :=
  collectHunks_covers cs [] [] none b rfl h

variable {diff : DiffLines} {path : Path} {baseline current : Text} {source : HunkSource}
  {uuid : ℕ} {cs : List Change} {hunk : Hunk}

/-- Every hunk of a diff covers a part of its script. -/
theorem exists_covers_of_mem_computeHunks (hdiff : diff baseline current = some cs)
    (h : hunk ∈ computeHunks diff path baseline current source uuid) :
    ∃ b pre mid post, cs = pre ++ mid ++ post ∧ HunkBuilder.Covers b pre mid ∧
      hunk.lineInfo = ⟨b.oldStart, b.oldLines.length, b.newStart, b.newLines.length⟩ ∧
      hunk.removed = lines b.oldLines.flatten ∧ hunk.added = lines b.newLines.flatten := by
  rw [computeHunks] at h
  split at h
  · simp at h
  · split at h
    · simp at h
    · rw [hdiff] at h
      obtain ⟨i, hi, rfl⟩ := List.mem_mapIdx.mp h
      obtain ⟨pre, mid, post, hcs, hcov⟩ := exists_covers (List.getElem_mem hi)
      refine ⟨_, pre, mid, post, hcs, hcov, rfl, ?_, rfl⟩
      rw [Hunk.removed, HunkBuilder.build]
      cases (collectHunks cs 1 1 none)[i].oldLines <;> rfl

theorem change_of_covers (hv : ValidScript baseline current cs) {b : HunkBuilder}
    {pre mid post : List Change} (hcs : cs = pre ++ mid ++ post) (hcov : b.Covers pre mid) :
    lines b.oldLines.flatten ≠ [] ∨ lines b.newLines.flatten ≠ [] := by
  obtain ⟨c, mid', rfl⟩ := List.exists_cons_of_ne_nil hcov.mid_ne_nil
  have hvalue : c.value ≠ [] := hv.value_ne_nil c (by simp [hcs])
  rw [hcov.oldLines_eq, hcov.newLines_eq]
  obtain ⟨tag, v⟩ := c
  cases tag with
  | equal | delete => exact Or.inl (lines_ne_nil (by simp [hvalue]))
  | insert => exact Or.inr (lines_ne_nil (by simp [hvalue]))

/-- The patch of a hunk never underflows and is well formed exactly when the
hunk is well placed. -/
theorem generateHunkPatch_wellFormed_iff (hdiff : diff baseline current = some cs)
    (hv : ValidScript baseline current cs)
    (h : hunk ∈ computeHunks diff path baseline current source uuid) :
    (∃ p, generateHunkPatch baseline current hunk = some p ∧
        p.WellFormed baseline current hunk) ↔
      hunk.WellPlaced baseline current := by
  obtain ⟨b, pre, mid, post, hcs, hcov, hinfo, hremoved, hadded⟩ :=
    exists_covers_of_mem_computeHunks hdiff h
  have hstart : 1 ≤ hunk.lineInfo.oldStart := by
    rw [hinfo, hcov.oldStart_eq]
    exact Nat.le_add_left _ _
  have hchange : hunk.removed ≠ [] ∨ hunk.added ≠ [] := by
    rw [hremoved, hadded]
    exact change_of_covers hv hcs hcov
  constructor
  · rintro ⟨p, hp, hwf⟩
    obtain ⟨hfits, rfl⟩ := generateHunkPatch_eq_some_iff.mp hp
    exact (wellFormed_fragment_iff hfits hstart hchange).mp hwf
  · intro hplaced
    exact ⟨_, generateHunkPatch_eq_some_iff.mpr ⟨hplaced.fits, rfl⟩,
      (wellFormed_fragment_iff hplaced.fits hstart hchange).mpr hplaced⟩

/-- An edit script that replaces the middle one of three lines. -/
def middleEdit : DiffLines := fun _ _ =>
  some [⟨.equal, ['a', '\n']⟩, ⟨.delete, ['b', '\n']⟩, ⟨.insert, ['x', '\n']⟩,
    ⟨.equal, ['c', '\n']⟩]

/-- The patch of a replaced line between two equal ones is well formed. -/
theorem middleEdit_patch_wellFormed :
    ∃ p, generateHunkPatch ['a', '\n', 'b', '\n', 'c', '\n'] ['a', '\n', 'x', '\n', 'c', '\n']
        ⟨0, [], ⟨2, 1, 2, 1⟩, .external, some ['b', '\n'], ['x', '\n']⟩ = some p ∧
      p.WellFormed ['a', '\n', 'b', '\n', 'c', '\n'] ['a', '\n', 'x', '\n', 'c', '\n']
        ⟨0, [], ⟨2, 1, 2, 1⟩, .external, some ['b', '\n'], ['x', '\n']⟩ := by
  have hdiff : middleEdit ['a', '\n', 'b', '\n', 'c', '\n']
      ['a', '\n', 'x', '\n', 'c', '\n'] = some _ := rfl
  have hmem : (⟨0, [], ⟨2, 1, 2, 1⟩, .external, some ['b', '\n'], ['x', '\n']⟩ : Hunk) ∈
      computeHunks middleEdit [] ['a', '\n', 'b', '\n', 'c', '\n']
        ['a', '\n', 'x', '\n', 'c', '\n'] .external 0 := by decide
  refine (generateHunkPatch_wellFormed_iff hdiff ⟨by decide, by decide⟩ hmem).mpr ?_
  exact ⟨⟨by decide, by decide⟩, rfl, by decide, by decide, by decide, by decide⟩

/-- An edit script that inserts a line after the first one and deletes the last one. -/
def insertThenDelete : DiffLines := fun _ _ =>
  some [⟨.equal, ['a', '\n']⟩, ⟨.insert, ['x', '\n']⟩, ⟨.equal, ['b', '\n']⟩,
    ⟨.delete, ['c', '\n']⟩]

/-- After an inserted line, the patch of the next hunk starts at the wrong line of
the current text, and its context is not there. -/
theorem insertThenDelete_patch_not_wellFormed :
    (∃ cs, insertThenDelete ['a', '\n', 'b', '\n', 'c', '\n']
        ['a', '\n', 'x', '\n', 'b', '\n'] = some cs ∧
      ValidScript ['a', '\n', 'b', '\n', 'c', '\n'] ['a', '\n', 'x', '\n', 'b', '\n'] cs) ∧
      ∃ hunk ∈ computeHunks insertThenDelete [] ['a', '\n', 'b', '\n', 'c', '\n']
          ['a', '\n', 'x', '\n', 'b', '\n'] .external 0,
        ¬∃ p, generateHunkPatch ['a', '\n', 'b', '\n', 'c', '\n']
            ['a', '\n', 'x', '\n', 'b', '\n'] hunk = some p ∧
          p.WellFormed ['a', '\n', 'b', '\n', 'c', '\n']
            ['a', '\n', 'x', '\n', 'b', '\n'] hunk := by
  refine ⟨⟨_, rfl, by decide, by decide⟩,
    ⟨1, [], ⟨3, 1, 4, 0⟩, .external, some ['c', '\n'], []⟩, by decide, ?_⟩
  rintro ⟨p, hp, hwf⟩
  have hpatch : generateHunkPatch ['a', '\n', 'b', '\n', 'c', '\n']
      ['a', '\n', 'x', '\n', 'b', '\n']
      ⟨1, [], ⟨3, 1, 4, 0⟩, .external, some ['c', '\n'], []⟩ =
        some ⟨1, 3, 1, 2, [⟨.equal, ['a']⟩, ⟨.equal, ['b']⟩, ⟨.delete, ['c']⟩]⟩ := by decide
  obtain rfl := Option.some.inj (hpatch.symm.trans hp)
  have hstart := hwf.newStart_eq
  revert hstart
  decide

/-- A lone carriage return ends a line of the diff, but not of the patch, and the
context after the hunk underflows. -/
example : generateHunkPatch ['a', '\r', 'b'] ['a', '\r', 'c']
    ⟨0, [], ⟨2, 1, 2, 1⟩, .external, some ['b'], ['c']⟩ = none := by decide

/-- The lines of a side of a script without lone carriage returns. -/
private theorem length_lines_of_pieces {t : Text} (h : NoLoneCr t) {as ms bs : List Text}
    (hsplit : as ++ ms ++ bs = tokenizeLines t) :
    (lines ms.flatten).length = ms.length ∧ as.length + ms.length ≤ (lines t).length := by
  rw [h.tokenizeLines_eq] at hsplit
  constructor
  · rw [lines, List.length_map, splitInclusive_flatten hsplit.symm]
  · rw [lines, List.length_map, ← hsplit, List.length_append, List.length_append]
    omega

/-- In texts without lone carriage returns a hunk is well placed exactly when it
starts at the same line in both texts and the lines around it, as far as the
context reaches, are the same in both. -/
theorem wellPlaced_iff_of_noLoneCr (hdiff : diff baseline current = some cs)
    (hv : ValidScript baseline current cs)
    (h : hunk ∈ computeHunks diff path baseline current source uuid)
    (hb : NoLoneCr baseline) (hc : NoLoneCr current) :
    hunk.WellPlaced baseline current ↔
      hunk.lineInfo.oldStart = hunk.lineInfo.newStart ∧
        hunk.before baseline = hunk.before current ∧
        ((lines baseline).drop
          (hunk.lineInfo.oldStart - 1 + hunk.lineInfo.oldCount)).take contextLines =
            hunk.after current := by
  obtain ⟨b, pre, mid, post, rfl, hcov, hinfo, hremoved, hadded⟩ :=
    exists_covers_of_mem_computeHunks hdiff h
  have hold : oldSide pre ++ b.oldLines ++ oldSide post = tokenizeLines baseline := by
    rw [hcov.oldLines_eq, ← oldSide_append, ← oldSide_append, hv.oldSide_eq]
  have hnew : newSide pre ++ b.newLines ++ newSide post = tokenizeLines current := by
    rw [hcov.newLines_eq, ← newSide_append, ← newSide_append, hv.newSide_eq]
  obtain ⟨hrl, hof⟩ := length_lines_of_pieces hb hold
  obtain ⟨hal, hnf⟩ := length_lines_of_pieces hc hnew
  rw [← hremoved] at hrl
  rw [← hadded] at hal
  have hos := hcov.oldStart_eq
  have hns := hcov.newStart_eq
  have hafter := length_after current hunk
  have hoc : hunk.lineInfo.oldCount = b.oldLines.length := by rw [hinfo]
  have hnc : hunk.lineInfo.newCount = b.newLines.length := by rw [hinfo]
  have hlo : hunk.lineInfo.oldStart = b.oldStart := by rw [hinfo]
  have hln : hunk.lineInfo.newStart = b.newStart := by rw [hinfo]
  constructor
  · rintro ⟨-, haligned, -, hlen, hsb, hsa⟩
    refine ⟨haligned, hsb, ?_⟩
    rw [List.prefix_iff_eq_take, hrl, ← hoc] at hsa
    rw [hsa, List.take_eq_take_iff, List.length_drop]
    omega
  · rintro ⟨haligned, hsb, hsa⟩
    refine ⟨⟨by omega, by omega⟩, haligned, by omega, ?_, hsb, ?_⟩
    · have hlen := congrArg List.length hsa
      rw [List.length_take, List.length_drop] at hlen
      omega
    · rw [← hsa, hrl, ← hoc]
      exact List.take_prefix _ _

end Script

end Ezer.HunkTracker
