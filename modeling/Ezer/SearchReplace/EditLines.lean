import Ezer.SearchReplace.Frame

/-!
# Where the details of a replacement say it is

Every replacement is shown with the lines of the new text around it, and with
the numbers of its first line in the old and in the new text. The old number
is that of the new text too, which is right for the first replacement, and for
the others when what is replaced has as many line feeds as what it is
replaced by.
-/

namespace Ezer.SearchReplace

open Lib

section Lines

/-- A text has a line more than line feeds in front of its last character. -/
theorem length_splitInclusive {t : Text} (h : t ≠ []) :
    (splitInclusive t).length = t.dropLast.count '\n' + 1 := by
  induction t using line_induction with
  | nil => exact absurd rfl h
  | last x hx hn =>
    have hcount : x.dropLast.count '\n' = 0 :=
      List.count_eq_zero.mpr fun hmem => hn (List.dropLast_subset x hmem)
    rw [splitInclusive_of_not_mem hn hx, hcount]
    rfl
  | line x t hn ih =>
    rw [splitInclusive_append hn, List.length_cons]
    by_cases ht : t = []
    · subst ht
      rw [List.dropLast_concat, List.count_eq_zero.mpr hn]
      rfl
    · rw [ih ht, List.dropLast_append_of_ne_nil (List.cons_ne_nil _ _),
        List.dropLast_cons_of_ne_nil ht, List.count_append, List.count_eq_zero.mpr hn,
        List.count_cons_self, Nat.zero_add]

theorem lines_behind_first (t : Text) :
    max 1 (splitInclusive t).length - 1 = t.dropLast.count '\n' := by
  by_cases ht : t = []
  · subst ht
    rfl
  · rw [length_splitInclusive ht]
    omega

theorem count_le_length_splitInclusive (t : Text) : t.count '\n' ≤ (splitInclusive t).length := by
  rcases List.eq_nil_or_concat t with rfl | ⟨init, c, rfl⟩
  · exact Nat.zero_le _
  · have hle : [c].count '\n' ≤ 1 := List.count_le_length
    rw [List.concat_eq_append, length_splitInclusive (List.append_ne_nil_of_right_ne_nil _
      (List.cons_ne_nil _ _)), List.dropLast_concat, List.count_append]
    omega

theorem exists_append_takeWhile (t : Text) :
    ∃ u, t = u ++ (t.reverse.takeWhile (· ≠ '\n')).reverse ∧
      '\n' ∉ (t.reverse.takeWhile (· ≠ '\n')).reverse ∧
      (u = [] ∨ u.getLast? = some '\n') := by
  refine ⟨(t.reverse.dropWhile (· ≠ '\n')).reverse, ?_, ?_, ?_⟩
  · rw [← List.reverse_append, List.takeWhile_append_dropWhile, List.reverse_reverse]
  · rw [List.mem_reverse]
    intro hmem
    have hall := List.all_eq_true.mp (@List.all_takeWhile Char (· ≠ '\n') t.reverse) _ hmem
    exact of_decide_eq_true hall rfl
  · cases hdrop : t.reverse.dropWhile (· ≠ '\n') with
    | nil => exact Or.inl rfl
    | cons c rest =>
      have hhead := List.head?_dropWhile_not (· ≠ '\n') t.reverse
      rw [hdrop] at hhead
      refine Or.inr ?_
      rw [List.getLast?_reverse]
      simpa using hhead

end Lines

/-- A detail says where a replacement is: on which line it is in the old and in the new text, what
is before it on its line, and what the lines are around those that it touches. -/
structure Locates (newText oldBefore newBefore newString : Text) (d : SearchReplaceEditDetail) :
    Prop where
  oldLine : d.oldLine = oldBefore.count '\n' + 1
  newLine : d.newLine = newBefore.count '\n' + 1
  linePrefix : ∃ u, newBefore = u ++ d.linePrefix ∧ '\n' ∉ d.linePrefix ∧
    (u = [] ∨ u.getLast? = some '\n')
  contextBefore : d.contextBefore = (((splitInclusive newText).take (newBefore.count '\n')).drop
    (newBefore.count '\n' - 3)).flatten
  contextAfter : d.contextAfter = (((splitInclusive newText).drop
    ((newBefore ++ newString.dropLast).count '\n' + 1)).take 3).flatten

/-- The text in front of a part of a text that is cut. -/
def textBefore (parts : List (Text × Text)) (g : Text) : Text :=
  (parts.flatMap fun (g, m) => g ++ m) ++ g

/-- The details say of every part of a text that was replaced where it is. -/
structure LocatesAll (cuts : Cuts) (newString : Text) (details : List SearchReplaceEditDetail) :
    Prop where
  length_eq : details.length = cuts.parts.length
  locates : ∀ before g m behind d, cuts.parts = before ++ (g, m) :: behind →
    details[before.length]? = some d →
      Locates (cuts.replaced newString) (textBefore before g)
        (textBefore (cutsWith newString before) g) newString d

section Details

variable {newText newBefore newString rest : Text}

theorem computeLineRange_append (h : newText = newBefore ++ newString ++ rest) :
    computeLineRange newText (byteLen newBefore) newString =
      (newBefore.count '\n', (newBefore ++ newString.dropLast).count '\n') := by
  have hget : getBytes newText 0 (byteLen newBefore) = some newBefore := by
    have happend := getBytes_append [] newBefore (newString ++ rest)
    rw [List.nil_append, byteLen_nil, Nat.zero_add, ← List.append_assoc, ← h] at happend
    exact happend
  unfold computeLineRange
  dsimp only
  rw [hget, Option.map_some, Option.getD_some, List.count_append, ← lines_behind_first]
  congr 1
  omega

/-- The lines in front of a line are shown, at most three of them. -/
theorem linesAbove {ls : List Text} {first : ℕ} (h : first ≤ ls.length) :
    (if first - 3 < first then linesBetween ls (first - 3) first else []) =
      ((ls.take first).drop (first - 3)).flatten := by
  by_cases hlt : first - 3 < first
  · rw [if_pos hlt, linesBetween, if_pos ⟨hlt.le, h⟩, List.drop_take]
  · have hzero : first = 0 := by omega
    rw [if_neg hlt, hzero, List.take_zero]
    rfl

/-- The lines behind a line are shown, at most three of them. -/
theorem linesBelow {ls : List Text} {last : ℕ} :
    (if last < min (last + 3) (ls.length - 1) then
        linesBetween ls (last + 1) (min (last + 3) (ls.length - 1) + 1) else []) =
      ((ls.drop (last + 1)).take 3).flatten := by
  by_cases hlt : last < min (last + 3) (ls.length - 1)
  · have hbounds : last + 1 ≤ min (last + 3) (ls.length - 1) + 1 ∧
        min (last + 3) (ls.length - 1) + 1 ≤ ls.length := by omega
    rw [if_pos hlt, linesBetween, if_pos hbounds]
    congr 1
    have hlength : (ls.drop (last + 1)).length = ls.length - (last + 1) := List.length_drop
    rw [List.take_eq_take_iff, hlength]
    omega
  · have hnil : ls.drop (last + 1) = [] := List.drop_eq_nil_of_le (by omega)
    rw [if_neg hlt, hnil]
    rfl

theorem renderSnippet_append (h : newText = newBefore ++ newString ++ rest) :
    renderSnippet newText newString (byteLen newBefore) 3 =
      ((((splitInclusive newText).take (newBefore.count '\n')).drop
          (newBefore.count '\n' - 3)).flatten,
        (((splitInclusive newText).drop
          ((newBefore ++ newString.dropLast).count '\n' + 1)).take 3).flatten) := by
  have hcount : newBefore.count '\n' ≤ (splitInclusive newText).length := by
    refine le_trans ?_ (count_le_length_splitInclusive newText)
    rw [h, List.append_assoc, List.count_append]
    exact Nat.le_add_right _ _
  unfold renderSnippet
  rw [computeLineRange_append h]
  dsimp only
  rw [linesAbove hcount, linesBelow]

theorem length_spansFrom (offset : ℕ) (parts : List (Text × Text)) :
    (spansFrom offset parts).length = parts.length := by
  induction parts generalizing offset with
  | nil => rfl
  | cons part parts ih => exact congrArg Nat.succ (ih _)

theorem length_cutsWith (parts : List (Text × Text)) :
    (cutsWith newString parts).length = parts.length := List.length_map _

/-- The line feeds in front of a part of a text that is cut by one pattern. -/
theorem count_textBefore {before : List (Text × Text)} {m : Text} (g : Text)
    (h : ∀ part ∈ before, part.2 = m) :
    (textBefore before g).count '\n' =
      (before.flatMap Prod.fst).count '\n' + before.length * m.count '\n' + g.count '\n' := by
  rw [textBefore, List.count_append]
  congr 1
  induction before with
  | nil => simp
  | cons part before ih =>
    rw [List.forall_mem_cons] at h
    rw [List.flatMap_cons, List.flatMap_cons, List.count_append, List.count_append,
      List.count_append, ih h.2, h.1, List.length_cons, Nat.succ_mul]
    omega

theorem getElem?_starts (offset : ℕ) (before behind : List (Text × Text)) (g m : Text) :
    ((spansFrom offset (before ++ (g, m) :: behind)).map Span.start)[before.length]? =
      some (offset + byteLen (textBefore before g)) := by
  induction before generalizing offset with
  | nil => rfl
  | cons part before ih =>
    obtain ⟨g', m'⟩ := part
    have htext : textBefore ((g', m') :: before) g = g' ++ m' ++ textBefore before g :=
      List.append_assoc _ _ _
    rw [List.cons_append, spansFrom, List.map_cons, List.length_cons, List.getElem?_cons_succ, ih,
      htext, byteLen_append, byteLen_append, Option.some.injEq]
    omega

/-- A part that is put in stands behind what is before it. -/
theorem replaced_eq_append (before behind : List (Text × Text)) (g m tail : Text) :
    ∃ rest, Cuts.replaced ⟨before ++ (g, m) :: behind, tail⟩ newString =
      textBefore (cutsWith newString before) g ++ newString ++ rest := by
  refine ⟨Cuts.replaced ⟨behind, tail⟩ newString, ?_⟩
  have hbefore : (cutsWith newString before).flatMap (fun (g, m) => g ++ m) =
      before.flatMap fun (g, _) => g ++ newString := List.flatMap_map _ _ _
  rw [Cuts.replaced, Cuts.replaced, textBefore, hbefore, List.flatMap_append, List.flatMap_cons]
  simp only [List.append_assoc]

theorem locates_iff {oldBefore oldString : Text} {d : SearchReplaceEditDetail}
    (h : newText = newBefore ++ newString ++ rest)
    (hd : [d] = buildEditDetails newText oldString newString [byteLen newBefore] 3) :
    Locates newText oldBefore newBefore newString d ↔
      newBefore.count '\n' = oldBefore.count '\n' := by
  obtain rfl := List.singleton_inj.mp hd
  have hget : getBytes newText 0 (byteLen newBefore) = some newBefore := by
    have happend := getBytes_append [] newBefore (newString ++ rest)
    rw [List.nil_append, byteLen_nil, Nat.zero_add, ← List.append_assoc, ← h] at happend
    exact happend
  constructor
  · intro hlocates
    have hline := hlocates.oldLine
    dsimp only at hline
    rw [computeLineRange_append h] at hline
    exact Nat.succ.inj hline
  · intro hcount
    refine ⟨?_, ?_, ?_, ?_, ?_⟩
    · dsimp only
      rw [computeLineRange_append h, hcount]
    · dsimp only
      rw [computeLineRange_append h]
    · dsimp only
      rw [hget, Option.getD_some]
      exact exists_append_takeWhile newBefore
    · dsimp only
      rw [renderSnippet_append h]
    · dsimp only
      rw [renderSnippet_append h]

/-- The details are right exactly for a single replacement, or when what is replaced has as many
line feeds as what it is replaced by. -/
theorem locatesAll_iff (text oldString newString : Text) (hold : oldString ≠ []) :
    ∃ cuts : Cuts, cuts.text = text ∧ CutBy oldString cuts ∧
      matchIndices oldString text = cuts.spans.map Span.start ∧
      (replaceUsingPositions text (matchIndices oldString text) oldString newString).1 =
        cuts.replaced newString ∧
      (LocatesAll cuts newString
          (buildEditDetails
            (replaceUsingPositions text (matchIndices oldString text) oldString newString).1
            oldString newString
            (replaceUsingPositions text (matchIndices oldString text) oldString newString).2 3) ↔
        (matchIndices oldString text).length ≤ 1 ∨
          oldString.count '\n' = newString.count '\n') := by
  obtain ⟨cuts, htext, hcut, hindices⟩ := exists_cuts_matchIndices hold text
  have hreplaced : replaceUsingPositions text (matchIndices oldString text) oldString newString =
      (cuts.replaced newString,
        (spansFrom 0 (cutsWith newString cuts.parts)).map Span.start) := by
    have hspans : (cuts.spans.map Span.start).map
        (fun pos => (⟨pos, byteLen oldString⟩ : Span)) = cuts.spans :=
      map_start_spansFrom 0 hcut.matched
    rw [replaceUsingPositions, hindices, hspans, ← htext, replaceSpans_cuts]
  have hlength : (matchIndices oldString text).length = cuts.parts.length := by
    rw [hindices, List.length_map, Cuts.spans, length_spansFrom]
  have hlocates : ∀ before g m behind d, cuts.parts = before ++ (g, m) :: behind →
      (buildEditDetails (cuts.replaced newString) oldString newString
        ((spansFrom 0 (cutsWith newString cuts.parts)).map Span.start) 3)[before.length]? =
          some d →
      (Locates (cuts.replaced newString) (textBefore before g)
          (textBefore (cutsWith newString before) g) newString d ↔
        before.length * newString.count '\n' = before.length * oldString.count '\n') := by
    intro before g m behind d hparts hd
    obtain ⟨rest, hrest⟩ := @replaced_eq_append newString before behind g m cuts.tail
    rw [← hparts] at hrest
    have hstart := getElem?_starts 0 (cutsWith newString before) (cutsWith newString behind) g
      newString
    have hcons : cutsWith newString cuts.parts =
        cutsWith newString before ++ (g, newString) :: cutsWith newString behind := by
      rw [hparts, cutsWith, List.map_append]
      rfl
    rw [length_cutsWith, ← hcons, Nat.zero_add] at hstart
    rw [buildEditDetails, List.getElem?_map, hstart, Option.map_some, Option.some.injEq] at hd
    rw [locates_iff hrest (congrArg (fun d => [d]) hd.symm)]
    have hold : ∀ part ∈ before, part.2 = oldString := by
      intro part hpart
      refine hcut.matched part ?_
      rw [hparts]
      exact List.mem_append_left _ hpart
    have hnew : ∀ part ∈ cutsWith newString before, part.2 = newString := by
      intro part hpart
      obtain ⟨part', -, rfl⟩ := List.mem_map.mp hpart
      rfl
    have hkept : (cutsWith newString before).flatMap Prod.fst = before.flatMap Prod.fst :=
      List.flatMap_map _ _ _
    rw [count_textBefore g hold, count_textBefore g hnew, hkept, length_cutsWith]
    omega
  refine ⟨cuts, htext, hcut, hindices, by rw [hreplaced], ?_⟩
  rw [hreplaced, hlength]
  dsimp only
  constructor
  · intro hall
    by_contra hno
    rw [not_or, not_le] at hno
    obtain ⟨first, part, behind, hparts⟩ : ∃ first part behind,
        cuts.parts = [first] ++ part :: behind := by
      cases hcuts : cuts.parts with
      | nil => simp [hcuts] at hno
      | cons first rest =>
        cases rest with
        | nil => simp [hcuts] at hno
        | cons part behind => exact ⟨first, part, behind, rfl⟩
    have hlt : [first].length < (buildEditDetails (cuts.replaced newString) oldString newString
        ((spansFrom 0 (cutsWith newString cuts.parts)).map Span.start) 3).length := by
      rw [hall.length_eq]
      exact hno.1
    have hd := List.getElem?_eq_getElem hlt
    have hcount := (hlocates [first] part.1 part.2 behind _ hparts hd).mp
      (hall.locates [first] part.1 part.2 behind _ hparts hd)
    rw [List.length_singleton, Nat.one_mul, Nat.one_mul] at hcount
    exact hno.2 hcount.symm
  · intro hsame
    refine ⟨?_, fun before g m behind d hparts hd => ?_⟩
    · rw [buildEditDetails, List.length_map, List.length_map, length_spansFrom, length_cutsWith]
    · rw [hlocates before g m behind d hparts hd]
      rcases hsame with hone | hsame
      · have hzero : before.length = 0 := by
          rw [hparts, List.length_append, List.length_cons] at hone
          omega
        rw [hzero, Nat.zero_mul, Nat.zero_mul]
      · rw [hsame]

end Details

/-- The detail of a single replacement. -/
theorem locatesAll_single :
    ∃ cuts : Cuts, cuts.text = ['a', '\n'] ∧ CutBy ['a'] cuts ∧
      matchIndices ['a'] ['a', '\n'] = cuts.spans.map Span.start ∧
      (replaceUsingPositions ['a', '\n'] (matchIndices ['a'] ['a', '\n']) ['a'] ['b']).1 =
        cuts.replaced ['b'] ∧
      (LocatesAll cuts ['b']
          (buildEditDetails
            (replaceUsingPositions ['a', '\n'] (matchIndices ['a'] ['a', '\n']) ['a'] ['b']).1
            ['a'] ['b']
            (replaceUsingPositions ['a', '\n'] (matchIndices ['a'] ['a', '\n']) ['a'] ['b']).2 3) ↔
        (matchIndices ['a'] ['a', '\n']).length ≤ 1 ∨ ['a'].count '\n' = ['b'].count '\n') :=
  locatesAll_iff ['a', '\n'] ['a'] ['b'] (List.cons_ne_nil _ _)

/-- The second of two replacements that put in a line feed is on the second line of the new text,
and said to be on the second line of the old one, which has a single line. -/
theorem not_locatesAll :
    ¬∀ (text oldString newString : Text) (cuts : Cuts), oldString ≠ [] → cuts.text = text →
      CutBy oldString cuts →
      LocatesAll cuts newString
        (buildEditDetails
          (replaceUsingPositions text (matchIndices oldString text) oldString newString).1
          oldString newString
          (replaceUsingPositions text (matchIndices oldString text) oldString newString).2 3) := by
  intro h
  have hcut : CutBy ['a'] ⟨[([], ['a']), ([], ['a'])], []⟩ := by
    refine ⟨?_, ?_, fun hinfix => absurd (List.infix_nil.mp hinfix) (List.cons_ne_nil _ _)⟩
    · simp
    · simpa using FirstBehind.nil ['a']
  have hall := h ['a', 'a'] ['a'] ['b', '\n'] _ (List.cons_ne_nil _ _) rfl hcut
  have hlocates := hall.locates [([], ['a'])] [] ['a'] [] _ rfl rfl
  exact absurd hlocates.oldLine (by decide)

end Ezer.SearchReplace
