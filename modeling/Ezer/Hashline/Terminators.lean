import Ezer.Hashline.Splices

/-!
# Line terminators and the final newline

The lines of a content are read without their terminators and joined by line
feeds. A line outside of the edits keeps its terminator exactly when that is a
line feed and something comes behind it.
-/

namespace Ezer.Hashline

open Ezer.Lib

/-- Lines with a line feed behind all but the last one. -/
def terminated : List Text → List Text
  | [] => []
  | [l] => [l]
  | l :: l' :: ls => (l ++ ['\n']) :: terminated (l' :: ls)

/-- The lines of a text with their terminators. -/
def rawLines (text : Text) : List Text := terminated (text.splitOn '\n')

/-- A line outside of the edits is in the new content, at its place, with its terminator. -/
def LinesKept (content newContent : Text) (es : List (Edit Text)) : Prop :=
  ∀ i line, Edit.Outside es i → (rawLines content)[i]? = some line →
    ∃ line', (rawLines newContent)[Edit.newIndex es i]? = some line' ∧ line <+: line'

/-- Unless an edit reaches the last line, the new content ends in a newline if the old one does. -/
def EndKept (content newContent : Text) (es : List (Edit Text)) : Prop :=
  (∀ e ∈ es, e.stop < (splitLines content).length) →
    endsWithNewline newContent = endsWithNewline content

/-- The lines outside of the edits end in line feeds and are followed by something, and where the
last line is empty and stays, there is something before it exactly if there was. -/
structure PlainTerminators (content : Text) (es : List (Edit Text)) : Prop where
  lineFeeds : ∀ i line, Edit.Outside es i → i + 1 < (splitLines content).length →
    (content.splitOn '\n')[i]? = some line → line.getLast? ≠ some '\r'
  followed : ∀ i, Edit.Outside es i → i + 1 < (splitLines content).length →
    Edit.Followed (splitLines content).length es i
  ended : (∀ e ∈ es, e.stop < (splitLines content).length) →
    (splitLines content).getLast? = some [] →
      (1 < (splitLines content).length ↔
        (∃ i, i + 1 < (splitLines content).length ∧ Edit.Outside es i) ∨ ∃ e ∈ es, e.lines ≠ [])

section Terminated

variable {ls : List Text} {content : Text} {es : List (Edit Text)} {i : ℕ} {line : Text}

theorem terminated_cons (l : Text) (h : ls ≠ []) :
    terminated (l :: ls) = (l ++ ['\n']) :: terminated ls := by
  cases ls with
  | nil => exact absurd rfl h
  | cons l' ls => rfl

/-- A change of all lines but the last one. -/
theorem getElem?_of_cons {f : Text → Text} {g : List Text → List Text} (hnil : g [] = [])
    (hone : ∀ l, g [l] = [l]) (hcons : ∀ l ls, ls ≠ [] → g (l :: ls) = f l :: g ls)
    (ls : List Text) (i : ℕ) :
    (g ls)[i]? = ls[i]?.map fun l => if i + 1 < ls.length then f l else l := by
  induction ls generalizing i with
  | nil => simp [hnil]
  | cons l ls ih =>
    by_cases hne : ls = []
    · subst hne
      cases i <;> simp [hone]
    · rw [hcons l ls hne]
      cases i with
      | zero => simp [List.length_pos_iff.mpr hne]
      | succ i => simp [ih]

theorem getElem?_terminated (ls : List Text) (i : ℕ) :
    (terminated ls)[i]? = ls[i]?.map fun l => if i + 1 < ls.length then l ++ ['\n'] else l :=
  getElem?_of_cons rfl (fun _ => rfl) (fun l _ hne => terminated_cons l hne) ls i

theorem getElem?_dropReturns (ls : List Text) (i : ℕ) :
    (dropReturns ls)[i]? = ls[i]?.map fun l =>
      if i + 1 < ls.length then (stripSuffix '\r' l).getD l else l :=
  getElem?_of_cons rfl (fun _ => rfl) (fun l _ hne => dropReturns_cons l hne) ls i

theorem getLast?_dropReturns (ls : List Text) : (dropReturns ls).getLast? = ls.getLast? := by
  fun_induction dropReturns ls with
  | case1 => rfl
  | case2 l => rfl
  | case3 l l' ls ih =>
    rw [List.getLast?_cons_cons, ← ih, List.getLast?_cons_of_ne_nil]
    exact List.ne_nil_of_length_pos (by rw [length_dropReturns]; exact Nat.succ_pos _)

/-- Joined lines end in a newline if the last of several is empty. -/
theorem endsWithNewline_joinLines (h : ∀ l ∈ ls, '\n' ∉ l) :
    endsWithNewline (joinLines ls) = true ↔ 1 < ls.length ∧ ls.getLast? = some [] := by
  rcases List.eq_nil_or_concat ls with rfl | ⟨init, last, rfl⟩
  · simp
  · have hlast : '\n' ∉ last := h last (by simp)
    rw [List.concat_eq_append, List.getLast?_concat, List.length_append, List.length_singleton,
      Option.some.injEq]
    by_cases hinit : init = []
    · subst hinit
      rw [List.nil_append, joinLines_singleton, endsWithNewline_of_not_mem hlast]
      simp
    · have hlt : 1 < init.length + 1 := Nat.succ_lt_succ (List.length_pos_iff.mpr hinit)
      rw [joinLines_append hinit (List.cons_ne_nil _ _), joinLines_singleton]
      by_cases hempty : last = []
      · subst hempty
        exact ⟨fun _ => ⟨hlt, rfl⟩, fun _ => endsWithNewline_concat _⟩
      · rw [List.append_cons, endsWithNewline_append _ hempty, endsWithNewline_of_not_mem hlast]
        exact ⟨fun h => absurd h Bool.false_ne_true, fun h => absurd h.2 hempty⟩

theorem joinLines_splitOn (t : Text) : joinLines (t.splitOn '\n') = t :=
  List.intercalate_splitOn '\n'

theorem newline_not_mem_splitOn {t l : Text} (h : l ∈ t.splitOn '\n') : '\n' ∉ l := by
  induction t using line_induction with
  | nil =>
    rw [List.splitOn_nil, List.mem_singleton] at h
    rw [h]
    exact List.not_mem_nil
  | last x hx hn =>
    rw [List.splitOn_eq_singleton hn, List.mem_singleton] at h
    rwa [h]
  | line x t hn ih =>
    rw [List.splitOn_append_cons_self_of_not_mem hn, List.mem_cons] at h
    rcases h with rfl | h
    · exact hn
    · exact ih h

theorem getD_stripSuffix (c : Char) (t : Text) :
    (stripSuffix c t).getD t = if t.getLast? = some c then t.dropLast else t := by
  unfold stripSuffix
  split <;> rfl

theorem rawLines_joinLines {new : List Text} (h : ∀ l ∈ new, '\n' ∉ l) (hne : new ≠ []) :
    rawLines (joinLines new) = terminated new := by
  rw [rawLines, splitOn_joinLines h hne]

/-- A line keeps its terminator if it is a line feed and something comes behind the line. -/
theorem kept_iff {i n j m : ℕ} {l raw : Text} (hraw : '\n' ∉ raw)
    (hl : l = if i + 1 < n then (stripSuffix '\r' raw).getD raw else raw) :
    ((if i + 1 < n then raw ++ ['\n'] else raw) <+: if j + 1 < m then l ++ ['\n'] else l) ↔
      (i + 1 < n → raw.getLast? ≠ some '\r' ∧ j + 1 < m) := by
  by_cases hi : i + 1 < n
  · rw [if_pos hi, getD_stripSuffix] at hl
    rw [if_pos hi]
    have hmem : '\n' ∉ l := by
      rw [hl]
      split
      · exact fun h => hraw (List.dropLast_subset raw h)
      · exact hraw
    constructor
    · intro hkept _
      by_cases hj : j + 1 < m
      · rw [if_pos hj] at hkept
        refine ⟨fun hlast => ?_, hj⟩
        have hle := hkept.length_le
        rw [if_pos hlast] at hl
        rw [List.length_append, List.length_append, hl, List.length_dropLast] at hle
        have hpos : 0 < raw.length := List.length_pos_of_mem (List.mem_of_getLast? hlast)
        omega
      · rw [if_neg hj] at hkept
        exact absurd (hkept.subset (List.mem_append_right _ List.mem_cons_self)) hmem
    · intro h
      obtain ⟨hlast, hj⟩ := h hi
      rw [if_neg hlast] at hl
      exact ⟨[], by rw [if_pos hj, hl, List.append_nil]⟩
  · rw [if_neg hi] at hl
    subst hl
    rw [if_neg hi]
    refine ⟨fun _ h => absurd h hi, fun _ => ?_⟩
    split
    · exact List.prefix_append _ _
    · exact ⟨[], List.append_nil _⟩

end Terminated

section Splice

variable {content : Text} {es : List (Edit Text)}

theorem linesKept_iff (hordered : Edit.Ordered (splitLines content).length 0 es)
    (hes : ∀ e ∈ es, ∀ l ∈ e.lines, '\n' ∉ l) :
    LinesKept content (joinLines (Edit.splice (splitLines content) es)) es ↔
      ∀ i line, Edit.Outside es i → (content.splitOn '\n')[i]? = some line →
        i + 1 < (splitLines content).length →
          line.getLast? ≠ some '\r' ∧ Edit.Followed (splitLines content).length es i := by
  have hlength : (splitLines content).length = (content.splitOn '\n').length := by
    rw [splitLines_eq, length_dropReturns]
  have hnew : ∀ l ∈ Edit.splice (splitLines content) es, '\n' ∉ l :=
    newline_not_mem_splice (fun l hl => newline_not_mem_splitLines hl) hes
  have hat : ∀ i raw, Edit.Outside es i → (content.splitOn '\n')[i]? = some raw →
      (Edit.splice (splitLines content) es)[Edit.newIndex es i]? = some
        (if i + 1 < (splitLines content).length then (stripSuffix '\r' raw).getD raw else raw) := by
    intro i raw hout hraw
    rw [Edit.getElem?_newIndex hordered hout, splitLines_eq, getElem?_dropReturns, hraw,
      length_dropReturns, Option.map_some]
  have hiff : ∀ i raw, Edit.Outside es i → (content.splitOn '\n')[i]? = some raw →
      ((∃ line', (rawLines (joinLines (Edit.splice (splitLines content) es)))[Edit.newIndex es i]? =
          some line' ∧
            (if i + 1 < (splitLines content).length then raw ++ ['\n'] else raw) <+: line') ↔
        (i + 1 < (splitLines content).length →
          raw.getLast? ≠ some '\r' ∧ Edit.Followed (splitLines content).length es i)) := by
    intro i raw hout hraw
    have hget := hat i raw hout hraw
    have hne : Edit.splice (splitLines content) es ≠ [] := by
      intro hnil
      rw [hnil] at hget
      cases hget
    have hi : i < (splitLines content).length := by
      rw [hlength]
      exact (List.getElem?_eq_some_iff.mp hraw).1
    rw [rawLines_joinLines hnew hne, getElem?_terminated, hget, Option.map_some,
      ← Edit.newIndex_succ_lt_iff hordered hi hout,
      ← kept_iff (newline_not_mem_splitOn (List.mem_of_getElem? hraw)) rfl]
    simp only [Option.some.injEq, exists_eq_left']
  unfold LinesKept rawLines
  constructor
  · intro h i raw hout hraw
    refine (hiff i raw hout hraw).mp (h i _ hout ?_)
    rw [getElem?_terminated, hraw, Option.map_some, hlength]
  · intro h i line hout hline
    rw [getElem?_terminated, Option.map_eq_some_iff] at hline
    obtain ⟨raw, hraw, rfl⟩ := hline
    rw [← hlength]
    exact (hiff i raw hout hraw).mpr (h i raw hout hraw)

theorem endKept_iff (hordered : Edit.Ordered (splitLines content).length 0 es)
    (hes : ∀ e ∈ es, ∀ l ∈ e.lines, '\n' ∉ l) :
    EndKept content (joinLines (Edit.splice (splitLines content) es)) es ↔
      ((∀ e ∈ es, e.stop < (splitLines content).length) →
        (splitLines content).getLast? = some [] →
          (1 < (splitLines content).length ↔
            (∃ i, i + 1 < (splitLines content).length ∧ Edit.Outside es i) ∨
              ∃ e ∈ es, e.lines ≠ [])) := by
  refine forall_congr' fun hstops => ?_
  have hnew : ∀ l ∈ Edit.splice (splitLines content) es, '\n' ∉ l :=
    newline_not_mem_splice (fun l hl => newline_not_mem_splitLines hl) hes
  have hcontent : endsWithNewline content = true ↔
      1 < (splitLines content).length ∧ (splitLines content).getLast? = some [] := by
    rw [splitLines_eq, length_dropReturns, getLast?_dropReturns,
      ← endsWithNewline_joinLines fun l hl => newline_not_mem_splitOn hl, joinLines_splitOn]
  rcases List.eq_nil_or_concat (splitLines content) with hnil | ⟨init, last, hconcat⟩
  · have hlength : (splitLines content).length = (content.splitOn '\n').length := by
      rw [splitLines_eq, length_dropReturns]
    rw [hnil] at hlength
    exact absurd (List.length_eq_zero_iff.mp hlength.symm) (List.splitOn_ne_nil _ _)
  · rw [List.concat_eq_append] at hconcat
    rw [Bool.eq_iff_iff, hcontent, endsWithNewline_joinLines hnew]
    rw [hconcat] at hordered hstops ⊢
    rw [List.length_append, List.length_singleton] at hordered hstops ⊢
    have hinit : Edit.Ordered init.length 0 es := by
      obtain ⟨-, hmem, hpairs⟩ := Edit.ordered_iff.mp hordered
      exact Edit.ordered_iff.mpr ⟨Nat.zero_le _, fun e he =>
        ⟨(hmem e he).1, (hmem e he).2.1, Nat.lt_succ_iff.mp (hstops e he)⟩, hpairs⟩
    have hsplice : Edit.splice (init ++ [last]) es = Edit.splice init es ++ [last] :=
      Edit.spliceFrom_append hinit [last]
    have hfilled : 0 < (Edit.splice init es).length ↔
        (∃ i, i + 1 < init.length + 1 ∧ Edit.Outside es i) ∨ ∃ e ∈ es, e.lines ≠ [] := by
      rw [List.length_pos_iff_ne_nil, ne_eq, Edit.splice, Edit.spliceFrom_eq_nil_iff hinit,
        not_and_or]
      push Not
      constructor
      · rintro (⟨i, -, hi, hout⟩ | hlines)
        · exact Or.inl ⟨i, Nat.succ_lt_succ hi, hout⟩
        · exact Or.inr hlines
      · rintro (⟨i, hi, hout⟩ | hlines)
        · exact Or.inl ⟨i, Nat.zero_le i, Nat.lt_of_succ_lt_succ hi, hout⟩
        · exact Or.inr hlines
    rw [hsplice, List.length_append, List.length_singleton, List.getLast?_concat,
      List.getLast?_concat, ← hfilled]
    have hsucc (n : ℕ) : 1 < n + 1 ↔ 0 < n := Nat.succ_lt_succ_iff
    rw [hsucc, hsucc]
    constructor
    · intro h hlast
      exact ⟨fun hpos => (h.mpr ⟨hpos, hlast⟩).1, fun hpos => (h.mp ⟨hpos, hlast⟩).1⟩
    · intro h
      exact ⟨fun hboth => ⟨(h hboth.2).mpr hboth.1, hboth.2⟩,
        fun hboth => ⟨(h hboth.2).mp hboth.1, hboth.2⟩⟩

end Splice

section Batch

variable {content filePath newContent : Text} {ops : List HashlineOp} {scheme : AnchorScheme}

/-- A batch keeps the terminators of the lines outside of its edits, and the final newline,
exactly when these lines end in line feeds with something behind them, and what is before an empty
last line is there before and after. -/
theorem applyEdits_keeps_iff (hops : ∀ newContent, ops ≠ [.write newContent])
    (h : (applyEdits content ops filePath scheme).newContent = some newContent) :
    ∃ resolved, resolveOps ops.length (splitLines content) scheme 0 ops = .ok resolved ∧
      (LinesKept content newContent (toEdits (topDown resolved)) ∧
          EndKept content newContent (toEdits (topDown resolved)) ↔
        PlainTerminators content (toEdits (topDown resolved))) := by
  unfold applyEdits at h
  split at h
  · rename_i newContent
    exact absurd rfl (hops newContent)
  · dsimp only at h
    split at h
    · cases h
    · rename_i resolved hresolved
      split at h
      · cases h
      · rename_i hclear
        obtain ⟨-, hbounds⟩ := resolveOps_inBounds hresolved
        have hsplice := @applyResolved_isSplice filePath scheme resolved ops.length _
          (fun l hl => newline_not_mem_splitLines hl) hbounds hclear
        have hordered := hsplice.ordered
        have hlines : ∀ e ∈ toEdits (topDown resolved), ∀ l ∈ e.lines, '\n' ∉ l := by
          intro e he
          obtain ⟨op, hop, rfl⟩ := List.mem_map.mp he
          exact (hbounds op (hsplice.perm.subset hop)).newline_not_mem
        obtain rfl := Option.some.inj (hsplice.newContent.symm.trans h)
        refine ⟨resolved, hresolved, ?_⟩
        rw [linesKept_iff hordered hlines, endKept_iff hordered hlines]
        constructor
        · rintro ⟨hkept, hended⟩
          refine ⟨fun i line hout hi hline => (hkept i line hout hline hi).1, fun i hout hi => ?_,
            hended⟩
          have hlt : i < (content.splitOn '\n').length := by
            rw [splitLines_eq, length_dropReturns] at hi
            exact Nat.lt_of_succ_lt hi
          exact (hkept i _ hout (List.getElem?_eq_getElem hlt) hi).2
        · intro hplain
          exact ⟨fun i line hout hline hi =>
            ⟨hplain.lineFeeds i line hout hi hline, hplain.followed i hout hi⟩, hplain.ended⟩

end Batch

/-- Put a line at the end of a file. -/
def putAtEnd : List HashlineOp := [.insertAfter ['E', 'O', 'F'] ['x']]

theorem applyEdits_putAtEnd :
    (applyEdits ['a', '\n'] putAtEnd ['f'] contentScheme).newContent =
        some ['a', '\n', 'x', '\n'] ∧
      (applyEdits ['a', '\r', '\n'] putAtEnd ['f'] contentScheme).newContent =
        some ['a', '\n', 'x', '\n'] :=
  ⟨rfl, rfl⟩

/-- A line put at the end of a file of lines that end in line feeds. -/
theorem putAtEnd_keeps_iff :
    ∃ resolved, resolveOps 1 (splitLines ['a', '\n']) contentScheme 0 putAtEnd = .ok resolved ∧
      (LinesKept ['a', '\n'] ['a', '\n', 'x', '\n'] (toEdits (topDown resolved)) ∧
          EndKept ['a', '\n'] ['a', '\n', 'x', '\n'] (toEdits (topDown resolved)) ↔
        PlainTerminators ['a', '\n'] (toEdits (topDown resolved))) :=
  applyEdits_keeps_iff (fun _ h => by cases h) applyEdits_putAtEnd.1

/-- The carriage return of a line is lost when a line is put in somewhere else. -/
theorem not_keeps_terminators :
    ¬∀ (content filePath newContent : Text) (ops : List HashlineOp) (scheme : AnchorScheme)
      (resolved : List ResolvedOp), (∀ c, HashlineOp.write c ∉ ops) →
      (applyEdits content ops filePath scheme).newContent = some newContent →
      resolveOps ops.length (splitLines content) scheme 0 ops = .ok resolved →
      LinesKept content newContent (toEdits (topDown resolved)) ∧
        EndKept content newContent (toEdits (topDown resolved)) := by
  intro h
  have hkept := (h ['a', '\r', '\n'] ['f'] _ putAtEnd contentScheme [⟨0, 1, 1, [['x']]⟩]
    (by simp [putAtEnd]) applyEdits_putAtEnd.2 rfl).1
  obtain ⟨line, hline, hstarts⟩ := hkept 0 ['a', '\r', '\n'] (by decide) rfl
  obtain rfl : ['a', '\n'] = line := Option.some.inj hline
  exact absurd hstarts (by decide)

end Ezer.Hashline
