import Ezer.Lib.Lines
import Mathlib.Data.List.TakeWhile

/-!
# Trimming a text

Leading and trailing white space of a text and its prefixes, as string
libraries treat them.
-/

namespace Ezer.Lib

/-- The Unicode white space characters. -/
def isWhitespace (c : Char) : Bool :=
  let n := c.toNat
  (9 ≤ n && n ≤ 13) || n = 32 || n = 0x85 || n = 0xA0 || n = 0x1680 ||
    (0x2000 ≤ n && n ≤ 0x200A) || n = 0x2028 || n = 0x2029 || n = 0x202F || n = 0x205F ||
    n = 0x3000

/-- A text without its leading white space. -/
def trimStart (t : Text) : Text := t.dropWhile isWhitespace

/-- A text without its trailing white space. -/
def trimEnd (t : Text) : Text := (t.reverse.dropWhile isWhitespace).reverse

/-- A text without leading and trailing white space. -/
def trim (t : Text) : Text := trimEnd (trimStart t)

/-- What follows the given start of a text. -/
def stripStart (start t : Text) : Option Text :=
  if start.isPrefixOf t then some (t.drop start.length) else none

theorem stripStart_append (start t : Text) : stripStart start (start ++ t) = some t := by
  unfold stripStart
  rw [if_pos (List.isPrefixOf_iff_prefix.mpr (List.prefix_append start t)), List.drop_left]

theorem eq_of_stripStart {start t rest : Text} (h : stripStart start t = some rest) :
    t = start ++ rest := by
  unfold stripStart at h
  split at h
  · rename_i hpre
    cases h
    obtain ⟨rest, rfl⟩ := List.isPrefixOf_iff_prefix.mp hpre
    rw [List.drop_left]
  · cases h

theorem trimStart_cons {c : Char} (h : isWhitespace c = false) (t : Text) :
    trimStart (c :: t) = c :: t := by
  simp [trimStart, h]

theorem trimEnd_concat {c : Char} (h : isWhitespace c = false) (t : Text) :
    trimEnd (t ++ [c]) = t ++ [c] := by
  simp [trimEnd, h]

theorem trimEnd_cases (t : Text) :
    trimEnd t = [] ∨ ∃ u c, trimEnd t = u ++ [c] ∧ isWhitespace c = false := by
  unfold trimEnd
  have hhead := List.head?_dropWhile_not isWhitespace t.reverse
  cases hdrop : t.reverse.dropWhile isWhitespace with
  | nil => exact .inl rfl
  | cons c u =>
    rw [hdrop] at hhead
    exact .inr ⟨u.reverse, c, by simp, by simpa using hhead⟩

theorem trimEnd_append (s : Text) {t : Text} (h : trim t = t) (hne : t ≠ []) :
    trimEnd (s ++ t) = s ++ t := by
  rcases trimEnd_cases (trimStart t) with hnil | ⟨u, c, htrim, hc⟩
  · exact (hne (h.symm.trans hnil)).elim
  · have heq : t = u ++ [c] := h.symm.trans htrim
    rw [heq, ← List.append_assoc]
    exact trimEnd_concat hc _

/-- White space before or after a trimmed text is all that trimming removes. -/
theorem trim_cons_append {c : Char} (hc : isWhitespace c = false) (s : Text) {t : Text}
    (h : trim t = t) (hne : t ≠ []) : trim (c :: s ++ t) = c :: s ++ t := by
  unfold trim
  rw [List.cons_append, trimStart_cons hc, ← List.cons_append]
  exact trimEnd_append _ h hne

theorem trim_cons_ne_nil {c : Char} (h : isWhitespace c = false) (t : Text) :
    trim (c :: t) ≠ [] := by
  unfold trim
  rw [trimStart_cons h]
  intro hnil
  unfold trimEnd at hnil
  rw [List.reverse_eq_nil_iff, List.dropWhile_eq_nil_iff] at hnil
  have hc := hnil c (by simp)
  rw [h] at hc
  cases hc

theorem trimStart_append_cons {c : Char} (h : isWhitespace c = false) (x k : Text) :
    trimStart (x ++ c :: k) = trimStart x ++ c :: k := by
  induction x with
  | nil => exact trimStart_cons h k
  | cons d x ih =>
    by_cases hd : isWhitespace d
    · have hdrop (t : Text) : trimStart (d :: t) = trimStart t := List.dropWhile_cons_of_pos hd
      rw [List.cons_append, hdrop, hdrop, ih]
    · rw [List.cons_append, trimStart_cons (Bool.eq_false_iff.mpr hd),
        trimStart_cons (Bool.eq_false_iff.mpr hd), List.cons_append]

theorem trimEnd_append_cons {c : Char} (h : isWhitespace c = false) (x k : Text) :
    trimEnd (x ++ c :: k) = x ++ c :: trimEnd k := by
  have hrev : (x ++ c :: k).reverse = k.reverse ++ c :: x.reverse := by simp
  have htrim := trimStart_append_cons h k.reverse x.reverse
  rw [trimStart, trimStart] at htrim
  rw [trimEnd, hrev, htrim, trimEnd]
  simp

theorem trimEnd_of_blank {t : Text} (h : ∀ c ∈ t, isWhitespace c = true) : trimEnd t = [] := by
  rw [trimEnd, List.reverse_eq_nil_iff, List.dropWhile_eq_nil_iff]
  exact fun c hc => h c (List.mem_reverse.mp hc)

/-- A text is white space and what trimming its start leaves, which starts with no white space. -/
theorem exists_trimStart (t : Text) :
    ∃ blank, (∀ c ∈ blank, isWhitespace c = true) ∧ t = blank ++ trimStart t ∧
      ∀ c ∈ (trimStart t).head?, isWhitespace c = false := by
  refine ⟨t.takeWhile isWhitespace, fun c => List.mem_takeWhile_imp,
    List.takeWhile_append_dropWhile.symm, fun c hc => ?_⟩
  have hhead := List.head?_dropWhile_not isWhitespace t
  rw [Option.mem_def, trimStart] at hc
  rw [hc] at hhead
  exact hhead

/-- A text is what trimming its end leaves, which ends in no white space, and white space. -/
theorem exists_trimEnd (t : Text) :
    ∃ blank, (∀ c ∈ blank, isWhitespace c = true) ∧ t = trimEnd t ++ blank ∧
      ∀ c ∈ (trimEnd t).getLast?, isWhitespace c = false := by
  obtain ⟨blank, hblank, ht, hhead⟩ := exists_trimStart t.reverse
  refine ⟨blank.reverse, fun c hc => hblank c (List.mem_reverse.mp hc), ?_, ?_⟩
  · have hrev := congrArg List.reverse ht
    rw [List.reverse_reverse, List.reverse_append] at hrev
    exact hrev
  · intro c hc
    rw [trimEnd, List.getLast?_reverse] at hc
    exact hhead c hc

/-- What trimming the end leaves is white space and what trimming both ends leaves. -/
theorem exists_trim (t : Text) :
    ∃ blank, (∀ c ∈ blank, isWhitespace c = true) ∧ trimEnd t = blank ++ trim t ∧
      ∀ c ∈ (trim t).head?, isWhitespace c = false := by
  obtain ⟨blank, hblank, ht, hhead⟩ := exists_trimStart t
  cases hstart : trimStart t with
  | nil =>
    rw [hstart, List.append_nil] at ht
    refine ⟨[], nofun, ?_, ?_⟩
    · rw [trim, hstart, ht, trimEnd_of_blank hblank]
      rfl
    · rw [trim, hstart]
      nofun
  | cons c k =>
    rw [hstart] at ht hhead
    have hc : isWhitespace c = false := hhead c rfl
    have htrim := trimEnd_append_cons hc [] k
    rw [List.nil_append, List.nil_append] at htrim
    refine ⟨blank, hblank, ?_, ?_⟩
    · rw [trim, hstart, ht, trimEnd_append_cons hc, htrim]
    · rw [trim, hstart, htrim]
      intro d hd
      cases hd
      exact hc

theorem trimStart_blank_append {blank : Text} (h : ∀ c ∈ blank, isWhitespace c = true) (t : Text) :
    trimStart (blank ++ t) = trimStart t := by
  rw [trimStart, trimStart, List.dropWhile_append_of_pos h]

theorem trimEnd_append_blank {blank : Text} (h : ∀ c ∈ blank, isWhitespace c = true) (t : Text) :
    trimEnd (t ++ blank) = trimEnd t := by
  have hrev : ∀ c ∈ blank.reverse, isWhitespace c = true :=
    fun c hc => h c (List.mem_reverse.mp hc)
  rw [trimEnd, trimEnd, List.reverse_append, List.dropWhile_append_of_pos hrev]

/-- White space around a text is trimmed. -/
theorem trim_blank {front back : Text} (hfront : ∀ c ∈ front, isWhitespace c = true)
    (hback : ∀ c ∈ back, isWhitespace c = true) (t : Text) : trim (front ++ (t ++ back)) = trim t := by
  obtain ⟨blank, hblank, ht, hhead⟩ := exists_trimStart t
  rw [trim, trim, trimStart_blank_append hfront]
  cases hstart : trimStart t with
  | nil =>
    rw [hstart, List.append_nil] at ht
    have hall : trimStart (t ++ back) = trimStart back := by
      rw [ht]
      exact trimStart_blank_append hblank back
    have hnil : trimStart back = [] := List.dropWhile_eq_nil_iff.mpr hback
    rw [hall, hnil]
  | cons c k =>
    rw [hstart] at ht hhead
    have hstart' : trimStart (t ++ back) = c :: k ++ back := by
      rw [ht, List.append_assoc, trimStart_blank_append hblank]
      exact trimStart_cons (hhead c rfl) (k ++ back)
    rw [hstart', trimEnd_append_blank hback]

theorem trim_isInfix (t : Text) : trim t <:+: t := by
  obtain ⟨blank, -, ht, -⟩ := exists_trim t
  obtain ⟨blank', -, ht', -⟩ := exists_trimEnd t
  refine ⟨blank, blank', ?_⟩
  rw [← ht]
  exact ht'.symm

theorem trim_getLast? (t : Text) : ∀ c ∈ (trim t).getLast?, isWhitespace c = false := by
  obtain ⟨_, _, _, hlast⟩ := exists_trimEnd (trimStart t)
  exact hlast

/-- A text that neither starts nor ends with white space is kept where it is trimmed. -/
theorem infix_trim {core t : Text} (hhead : ∀ c ∈ core.head?, isWhitespace c = false)
    (hlast : ∀ c ∈ core.getLast?, isWhitespace c = false) (h : core <:+: t) : core <:+: trim t := by
  cases core with
  | nil => exact List.nil_infix
  | cons c k =>
    obtain ⟨x, y, rfl⟩ := h
    have hc : isWhitespace c = false := hhead c rfl
    have hne : c :: k ≠ [] := List.cons_ne_nil c k
    have hd : isWhitespace ((c :: k).getLast hne) = false :=
      hlast _ (List.getLast?_eq_some_getLast hne)
    have hstart : trimStart (x ++ c :: k ++ y) = trimStart x ++ c :: k ++ y := by
      rw [List.append_assoc, List.append_assoc]
      exact trimStart_append_cons hc x (k ++ y)
    have hend (z : Text) : trimEnd (z ++ c :: k ++ y) = z ++ c :: k ++ trimEnd y := by
      rw [← List.dropLast_append_getLast hne]
      have htrim := trimEnd_append_cons hd (z ++ (c :: k).dropLast) y
      simpa only [List.append_assoc, List.singleton_append] using htrim
    rw [trim, hstart, hend]
    exact List.infix_append _ _ _

/-- Trimming a text that is trimmed changes nothing. -/
theorem trim_trim (t : Text) : trim (trim t) = trim t := by
  obtain ⟨_, _, _, hhead⟩ := exists_trim t
  have hkept := infix_trim hhead (trim_getLast? t) List.infix_rfl
  exact ((trim_isInfix (trim t)).eq_of_length_le hkept.length_le)

end Ezer.Lib
