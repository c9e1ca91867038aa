import Mathlib.Data.List.Basic
import Mathlib.Data.List.Flatten

/-!
# Splitting a text into lines

A text is a list of characters. Two splittings are used side by side by line
oriented tools: cutting after every line feed and dropping the terminator, and
cutting after every line feed, carriage return or pair of both while keeping
the terminator. Both are instances of one splitter that cuts after a stopping
character.
-/

namespace Ezer.Lib

/-- A text, as its sequence of Unicode scalar values. -/
abbrev Text := List Char

instance : LawfulBEq Text := inferInstance

/-- Put a character in front of the first piece. -/
def consHead (c : Char) : List Text → List Text
  | [] => [[c]]
  | p :: ps => (c :: p) :: ps

/-- Cut a text after every character that stops a piece, given what follows it. -/
def splitAfter (stop : Char → Text → Bool) : Text → List Text
  | [] => []
  | c :: cs =>
    if stop c cs then [c] :: splitAfter stop cs else consHead c (splitAfter stop cs)

/-- A line feed ends a line. -/
def stopLf (c : Char) (_ : Text) : Bool := c == '\n'

/-- A line feed, or a carriage return that no line feed follows, ends a line. -/
def stopCrLf (c : Char) (rest : Text) : Bool :=
  c == '\n' || (c == '\r' && rest.head? != some '\n')

/-- Pieces that end at each line feed, the last one possibly without it. -/
def splitInclusive : Text → List Text := splitAfter stopLf

/-- Pieces that end at each line feed, carriage return and line feed, or lone
carriage return. -/
def tokenizeLines : Text → List Text := splitAfter stopCrLf

/-- Whether a text ends with a line feed. -/
def endsWithNewline (t : Text) : Bool := t.getLast? == some '\n'

/-- Drop one character from the end of a text when it is there. -/
def stripSuffix (c : Char) (t : Text) : Option Text :=
  if t.getLast? = some c then some t.dropLast else none

/-- Drop a line feed, and a carriage return before it, from the end of a piece. -/
def stripLineEnding (p : Text) : Text :=
  match stripSuffix '\n' p with
  | none => p
  | some q => (stripSuffix '\r' q).getD q

/-- The lines of a text without their terminators. -/
def lines (t : Text) : List Text := (splitInclusive t).map stripLineEnding

/-- Lines joined by a line feed between them. -/
def joinLines (ls : List Text) : Text := ['\n'].intercalate ls

/-- A line feed ended piece of a text without carriage returns. -/
def IsLine (p : Text) : Prop := ∃ x : Text, '\n' ∉ x ∧ '\r' ∉ x ∧ p = x ++ ['\n']

/-- No line feed of a text follows a carriage return. -/
def NoCrLf (t : Text) : Prop := ¬['\r', '\n'] <:+: t

/-- Every carriage return of a text is followed by a line feed. -/
def NoLoneCr (t : Text) : Prop := ∀ a b, t = a ++ '\r' :: b → b.head? = some '\n'

/-- A text is empty, one line without terminator, or a line before another text. -/
theorem line_induction {motive : Text → Prop} (nil : motive [])
    (last : ∀ x, x ≠ [] → '\n' ∉ x → motive x)
    (line : ∀ x t, '\n' ∉ x → motive t → motive (x ++ '\n' :: t)) (t : Text) : motive t := by
  suffices h : ∀ x : Text, '\n' ∉ x → motive (x ++ t) by simpa using h [] (by simp)
  induction t with
  | nil =>
    intro x hx
    by_cases he : x = []
    · simpa [he] using nil
    · simpa using last x he hx
  | cons c t ih =>
    intro x hx
    by_cases hc : c = '\n'
    · subst hc
      exact line x t hx (by simpa using ih [] (by simp))
    · have hxc : '\n' ∉ x ++ [c] := by simp [hx, Ne.symm hc]
      simpa using ih (x ++ [c]) hxc

@[simp] theorem splitInclusive_nil : splitInclusive [] = [] := rfl

variable {x s t p : Text}

theorem splitInclusive_of_not_mem (h : '\n' ∉ x) (hx : x ≠ []) :
    splitInclusive x = [x] := by
  induction x with
  | nil => exact absurd rfl hx
  | cons c x ih =>
    have hc : ¬ c = '\n' := fun he => h (by simp [he])
    have hx' : '\n' ∉ x := fun he => h (by simp [he])
    cases x with
    | nil => simp [splitInclusive, splitAfter, stopLf, hc, consHead]
    | cons d y =>
      have hs := ih hx' (by simp)
      rw [splitInclusive, splitAfter, ← splitInclusive, hs]
      simp [stopLf, hc, consHead]

theorem splitInclusive_append (h : '\n' ∉ x) (t : Text) :
    splitInclusive (x ++ '\n' :: t) = (x ++ ['\n']) :: splitInclusive t := by
  induction x with
  | nil => simp [splitInclusive, splitAfter, stopLf]
  | cons c x ih =>
    have hc : ¬ c = '\n' := fun he => h (by simp [he])
    have hx' : '\n' ∉ x := fun he => h (by simp [he])
    rw [List.cons_append, splitInclusive, splitAfter, ← splitInclusive, ih hx']
    simp [stopLf, hc, consHead]

@[simp] theorem lines_nil : lines [] = [] := rfl

theorem lines_of_not_mem (h : '\n' ∉ x) (hx : x ≠ []) : lines x = [x] := by
  have hl : x.getLast? ≠ some '\n' := fun he => h (List.mem_of_getLast? he)
  rw [lines, splitInclusive_of_not_mem h hx]
  simp [stripLineEnding, stripSuffix, hl]

theorem lines_append_newline (h : '\n' ∉ x) (t : Text) :
    lines (x ++ '\n' :: t) = (stripSuffix '\r' x).getD x :: lines t := by
  rw [lines, splitInclusive_append h]
  simp [lines, stripLineEnding, stripSuffix]

/-- The lines of a text that ends a line are read before those of the rest. -/
theorem lines_append (h : s = [] ∨ endsWithNewline s = true) (t : Text) :
    lines (s ++ t) = lines s ++ lines t := by
  induction s using line_induction with
  | nil => rfl
  | last x hx hn =>
    rcases h with rfl | h
    · exact absurd rfl hx
    · rw [endsWithNewline, beq_iff_eq] at h
      exact absurd (List.mem_of_getLast? h) hn
  | line x s hx ih =>
    have hs : s = [] ∨ endsWithNewline s = true := by
      cases s with
      | nil => exact .inl rfl
      | cons c s =>
        rcases h with h | h
        · simp at h
        · right
          rw [endsWithNewline, List.getLast?_append_of_ne_nil _ (by simp)] at h
          rw [endsWithNewline, ← h, List.getLast?_cons_cons]
    rw [List.append_assoc, List.cons_append, lines_append_newline hx, lines_append_newline hx, ih hs,
      List.cons_append]

variable {ls : List Text}

/-- Lines in front of a text are its first lines. -/
theorem lines_flatten_append (h : ∀ l ∈ ls, IsLine l) (t : Text) :
    lines (ls.flatten ++ t) = ls.map List.dropLast ++ lines t := by
  induction ls with
  | nil => simp
  | cons l ls ih =>
    obtain ⟨x, hx, hr, rfl⟩ := h l (by simp)
    have hs : stripSuffix '\r' x = none := by
      have hl : x.getLast? ≠ some '\r' := fun he => hr (List.mem_of_getLast? he)
      simp [stripSuffix, hl]
    have hih := ih fun l hl => h l (by simp [hl])
    simp only [List.flatten_cons, List.append_assoc, List.cons_append, List.nil_append,
      List.map_cons, List.dropLast_concat]
    rw [lines_append_newline hx, hs, hih]
    simp

@[simp] theorem joinLines_nil : joinLines [] = [] := rfl

@[simp] theorem joinLines_singleton (l : Text) : joinLines [l] = l := by
  simp [joinLines, List.intercalate]

theorem joinLines_cons (l : Text) (h : ls ≠ []) :
    joinLines (l :: ls) = l ++ '\n' :: joinLines ls := by
  cases ls with
  | nil => exact absurd rfl h
  | cons a ls => simp [joinLines, List.intercalate]

theorem joinLines_append {as bs : List Text} (ha : as ≠ []) (hb : bs ≠ []) :
    joinLines (as ++ bs) = joinLines as ++ '\n' :: joinLines bs := by
  induction as with
  | nil => exact absurd rfl ha
  | cons a as ih =>
    by_cases hnil : as = []
    · subst hnil
      rw [List.singleton_append, joinLines_cons a hb, joinLines_singleton]
    · have hne : as ++ bs ≠ [] := by simp [hnil]
      rw [List.cons_append, joinLines_cons a hne, joinLines_cons a hnil, ih hnil]
      simp

theorem lines_ne_nil (h : t ≠ []) : lines t ≠ [] := by
  induction t using line_induction with
  | nil => exact absurd rfl h
  | last x hx hn => simp [lines_of_not_mem hn hx]
  | line x t hx _ => simp [lines_append_newline hx]

theorem endsWithNewline_append (s : Text) (h : t ≠ []) :
    endsWithNewline (s ++ t) = endsWithNewline t := by
  simp [endsWithNewline, List.getLast?_append_of_ne_nil _ h]

@[simp] theorem endsWithNewline_nil : endsWithNewline [] = false := rfl

@[simp] theorem endsWithNewline_concat (t : Text) : endsWithNewline (t ++ ['\n']) = true := by
  simp [endsWithNewline]

theorem endsWithNewline_of_not_mem (h : '\n' ∉ x) : endsWithNewline x = false := by
  have hl : x.getLast? ≠ some '\n' := fun he => h (List.mem_of_getLast? he)
  simp [endsWithNewline, hl]

theorem NoCrLf.of_append_right (h : NoCrLf (s ++ t)) : NoCrLf t :=
  fun hi => h (hi.trans (List.suffix_append s t).isInfix)

theorem NoCrLf.of_not_mem (h : '\r' ∉ t) : NoCrLf t :=
  fun hi => h (hi.subset (by simp))

/-- A carriage return in front creates no pair when there is none. -/
theorem NoCrLf.append (hs : '\r' ∉ s) (ht : NoCrLf t) : NoCrLf (s ++ t) := by
  induction s with
  | nil => exact ht
  | cons c s ih =>
    have hc : '\r' ≠ c := fun he => hs (by simp [← he])
    have hs' : '\r' ∉ s := fun he => hs (by simp [he])
    intro hi
    rcases List.infix_cons_iff.mp hi with hp | hi
    · exact hc (List.cons_prefix_cons.mp hp).1
    · exact ih hs' hi

private theorem stripSuffix_eq_none_of_noCrLf (h : NoCrLf (x ++ '\n' :: t)) :
    stripSuffix '\r' x = none := by
  have hl : x.getLast? ≠ some '\r' := by
    intro he
    obtain ⟨y, rfl⟩ := List.getLast?_eq_some_iff.mp he
    exact h ⟨y, t, by simp⟩
  simp [stripSuffix, hl]

/-- Joining the lines of a text gives the text back up to its last line feed. -/
theorem joinLines_lines (h : NoCrLf t) :
    joinLines (lines t) ++ (if endsWithNewline t then ['\n'] else []) = t := by
  induction t using line_induction with
  | nil => simp
  | last x hx hn => simp [lines_of_not_mem hn hx, endsWithNewline_of_not_mem hn]
  | line x t hx ih =>
    rw [lines_append_newline hx, stripSuffix_eq_none_of_noCrLf h, Option.getD_none]
    by_cases ht : t = []
    · subst ht
      simp
    · have hi := ih (NoCrLf.of_append_right (s := x ++ ['\n']) (by simpa using h))
      have he : endsWithNewline (x ++ '\n' :: t) = endsWithNewline t := by
        simpa using endsWithNewline_append (x ++ ['\n']) ht
      rw [joinLines_cons x (lines_ne_nil ht), he, List.append_assoc, List.cons_append, hi]

/-- Only the empty text and a single line feed have nothing but empty lines to join. -/
theorem joinLines_lines_eq_nil (h : NoCrLf t) :
    joinLines (lines t) = [] ↔ t = [] ∨ t = ['\n'] := by
  have hj := joinLines_lines h
  constructor
  · intro he
    rw [he, List.nil_append] at hj
    by_cases hn : endsWithNewline t
    · exact Or.inr (by simpa [hn] using hj.symm)
    · exact Or.inl (by simpa [hn] using hj.symm)
  · rintro (rfl | rfl)
    · rfl
    · rfl

theorem flatten_consHead (c : Char) (ps : List Text) : (consHead c ps).flatten = c :: ps.flatten := by
  cases ps <;> simp [consHead]

/-- Cutting loses nothing. -/
theorem flatten_splitAfter (stop : Char → Text → Bool) (t : Text) :
    (splitAfter stop t).flatten = t := by
  induction t with
  | nil => rfl
  | cons c t ih =>
    rw [splitAfter]
    split
    · simp [ih]
    · rw [flatten_consHead, ih]

/-- A piece is not empty and holds a line feed at most at its end. -/
theorem splitAfter_piece {stop : Char → Text → Bool} (hstop : ∀ rest, stop '\n' rest = true)
    (hp : p ∈ splitAfter stop t) : p ≠ [] ∧ '\n' ∉ p.dropLast := by
  induction t generalizing p with
  | nil => simp [splitAfter] at hp
  | cons c t ih =>
    rw [splitAfter] at hp
    split at hp
    · rcases List.mem_cons.mp hp with rfl | hp
      · simp
      · exact ih hp
    · rename_i hc
      have hn : '\n' ≠ c := by
        rintro rfl
        exact hc (hstop t)
      cases hs : splitAfter stop t with
      | nil =>
        rw [hs] at hp
        simp only [consHead, List.mem_singleton] at hp
        simp [hp]
      | cons q qs =>
        rw [hs] at hp
        rcases List.mem_cons.mp hp with rfl | hp
        · obtain ⟨hq, hd⟩ := ih (p := q) (by simp [hs])
          refine ⟨by simp, ?_⟩
          rw [List.dropLast_cons_of_ne_nil hq]
          simp [hn, hd]
        · exact ih (by simp [hs, hp])

/-- A piece of a text cut at its line ends. -/
theorem tokenizeLines_piece (hp : p ∈ tokenizeLines t) :
    p ≠ [] ∧ '\n' ∉ p.dropLast :=
  splitAfter_piece (by simp [stopCrLf]) hp

theorem splitAfter_stopped {stop : Char → Text → Bool} (hp : p ∈ (splitAfter stop t).dropLast) :
    ∃ c rest, p.getLast? = some c ∧ stop c rest = true := by
  induction t generalizing p with
  | nil => simp [splitAfter] at hp
  | cons c t ih =>
    rw [splitAfter] at hp
    split at hp
    · rename_i hc
      cases hs : splitAfter stop t with
      | nil => simp [hs] at hp
      | cons q qs =>
        rw [hs, List.dropLast_cons_of_ne_nil (by simp)] at hp
        rcases List.mem_cons.mp hp with rfl | hp
        · exact ⟨c, t, rfl, hc⟩
        · exact ih (by rwa [hs])
    · cases hs : splitAfter stop t with
      | nil => simp [hs, consHead] at hp
      | cons q qs =>
        rw [hs, consHead] at hp
        cases qs with
        | nil => simp at hp
        | cons r rs =>
          rw [List.dropLast_cons_of_ne_nil (by simp)] at hp
          rcases List.mem_cons.mp hp with rfl | hp
          · obtain ⟨d, rest, hd, hstop⟩ := ih (p := q) (by simp [hs])
            exact ⟨d, rest, by simp [List.getLast?_cons, hd], hstop⟩
          · exact ih (by simp [hs, hp])

/-- Without carriage returns, every piece but the last one is a line. -/
theorem isLine_of_mem_dropLast (hp : p ∈ (tokenizeLines t).dropLast)
    (hr : '\r' ∉ p) : IsLine p := by
  obtain ⟨c, rest, hc, hstop⟩ := splitAfter_stopped hp
  obtain ⟨-, hd⟩ := tokenizeLines_piece (List.dropLast_subset _ hp)
  obtain ⟨x, rfl⟩ := List.getLast?_eq_some_iff.mp hc
  have hcr : c ≠ '\r' := fun he => hr (by simp [he])
  have hcn : c = '\n' := by simpa [stopCrLf, hcr] using hstop
  subst hcn
  exact ⟨x, by simpa using hd, fun he => hr (by simp [he]), rfl⟩

/-- The last piece without carriage returns is a line or holds no line feed. -/
theorem isLine_or_not_mem (hp : p ∈ tokenizeLines t) (hr : '\r' ∉ p) :
    IsLine p ∨ '\n' ∉ p := by
  obtain ⟨hne, hd⟩ := tokenizeLines_piece hp
  obtain ⟨x, c, rfl⟩ := List.eq_nil_or_concat' p |>.resolve_left hne
  rw [List.dropLast_concat] at hd
  by_cases hc : c = '\n'
  · subst hc
    exact Or.inl ⟨x, hd, fun he => hr (by simp [he]), rfl⟩
  · exact Or.inr (by simp [hd, Ne.symm hc])

theorem NoLoneCr.of_not_mem (h : '\r' ∉ t) : NoLoneCr t := by
  rintro a b rfl
  simp at h

theorem noLoneCr_cons {c : Char} :
    NoLoneCr (c :: t) ↔ (c = '\r' → t.head? = some '\n') ∧ NoLoneCr t := by
  constructor
  · intro h
    refine ⟨?_, fun a b hab => h (c :: a) b (by simp [hab])⟩
    rintro rfl
    exact h [] t rfl
  · rintro ⟨hc, ht⟩ a b hab
    cases a with
    | nil =>
      obtain ⟨rfl, rfl⟩ : c = '\r' ∧ t = b := by simpa using hab
      exact hc rfl
    | cons d a =>
      obtain ⟨-, rfl⟩ : c = d ∧ t = a ++ '\r' :: b := by simpa using hab
      exact ht a b rfl

theorem NoLoneCr.append (hs : NoLoneCr s) (ht : NoLoneCr t) :
    NoLoneCr (s ++ t) := by
  induction s with
  | nil => exact ht
  | cons c s ih =>
    obtain ⟨hc, hs⟩ := noLoneCr_cons.mp hs
    refine noLoneCr_cons.mpr ⟨fun he => ?_, ih hs⟩
    simp [List.head?_append, hc he]

theorem NoLoneCr.flatten (h : ∀ l ∈ ls, NoLoneCr l) : NoLoneCr ls.flatten := by
  induction ls with
  | nil => exact NoLoneCr.of_not_mem (by simp)
  | cons l ls ih => exact (h l (by simp)).append (ih fun l hl => h l (by simp [hl]))

/-- Cutting at line ends leaves no carriage return alone. -/
theorem NoLoneCr.tokenizeLines (h : NoLoneCr t) (hp : p ∈ tokenizeLines t) :
    NoLoneCr p := by
  induction t generalizing p with
  | nil => simp [Lib.tokenizeLines, splitAfter] at hp
  | cons c t ih =>
    obtain ⟨hc, ht⟩ := noLoneCr_cons.mp h
    rw [Lib.tokenizeLines, splitAfter, ← Lib.tokenizeLines] at hp
    split at hp
    · rename_i hstop
      rcases List.mem_cons.mp hp with rfl | hp
      · refine NoLoneCr.of_not_mem fun hr => ?_
        obtain rfl : '\r' = c := by simpa using hr
        simp [stopCrLf, hc rfl] at hstop
      · exact ih ht hp
    · have hflat : (Lib.tokenizeLines t).flatten = t := flatten_splitAfter stopCrLf t
      cases hs : Lib.tokenizeLines t with
      | nil =>
        rw [hs] at hp hflat
        obtain rfl : p = [c] := by simpa [consHead] using hp
        refine NoLoneCr.of_not_mem fun hr => ?_
        obtain rfl : '\r' = c := by simpa using hr
        simp [← hflat] at hc
      | cons q qs =>
        rw [hs] at hp hflat
        have hqne : q ≠ [] := (tokenizeLines_piece (t := t) (by simp [hs])).1
        rcases List.mem_cons.mp hp with rfl | hp
        · refine noLoneCr_cons.mpr ⟨fun he => ?_, ih ht (by simp [hs])⟩
          have hhead := hc he
          rw [← hflat, List.flatten_cons, List.head?_append_of_ne_nil _ hqne] at hhead
          exact hhead
        · exact ih ht (by simp [hs, hp])

/-- The lines of a text without lone carriage returns hold none. -/
theorem NoLoneCr.not_mem_lines (h : NoLoneCr t) : ∀ l ∈ lines t, '\r' ∉ l := by
  induction t using line_induction with
  | nil => simp
  | last x hx hn =>
    rw [lines_of_not_mem hn hx]
    rintro l hl hr
    obtain rfl := List.mem_singleton.mp hl
    obtain ⟨a, b, rfl⟩ := List.append_of_mem hr
    exact hn (by simp [List.mem_of_mem_head? (h a b rfl)])
  | line x t hx ih =>
    rw [lines_append_newline hx]
    intro l hl
    rcases List.mem_cons.mp hl with rfl | hl
    · intro hr
      have hpos : ∀ a b, x = a ++ '\r' :: b → b = [] := by
        rintro a b rfl
        have hb := h a (b ++ '\n' :: t) (by simp)
        cases b with
        | nil => rfl
        | cons d b =>
          obtain rfl : d = '\n' := by simpa using hb
          simp at hx
      by_cases hl : x.getLast? = some '\r'
      · obtain ⟨y, rfl⟩ := List.getLast?_eq_some_iff.mp hl
        simp only [stripSuffix, List.getLast?_concat, if_true, Option.getD_some,
          List.dropLast_concat] at hr
        obtain ⟨a, b, rfl⟩ := List.append_of_mem hr
        have hb := hpos a (b ++ ['\r']) (by simp)
        simp at hb
      · simp only [stripSuffix, hl, if_false, Option.getD_none] at hr
        obtain ⟨a, b, rfl⟩ := List.append_of_mem hr
        obtain rfl := hpos a b rfl
        simp at hl
    · refine ih (fun a b hab => ?_) l hl
      exact h (x ++ '\n' :: a) b (by simp [hab])

/-- Without lone carriage returns, lines are cut at line feeds only. -/
theorem NoLoneCr.tokenizeLines_eq (h : NoLoneCr t) :
    Lib.tokenizeLines t = splitInclusive t := by
  induction t with
  | nil => rfl
  | cons c t ih =>
    obtain ⟨hc, ht⟩ := noLoneCr_cons.mp h
    have hstop : stopCrLf c t = stopLf c t := by
      by_cases hr : c = '\r'
      · simp [stopCrLf, stopLf, hc hr]
      · simp [stopCrLf, stopLf, hr]
    have htail := ih ht
    rw [Lib.tokenizeLines, splitInclusive] at htail ⊢
    rw [splitAfter, splitAfter, hstop, htail]

/-- Pieces that follow one another in a text are cut in the same way alone. -/
theorem splitInclusive_flatten {as ms bs : List Text}
    (h : splitInclusive t = as ++ ms ++ bs) : splitInclusive ms.flatten = ms := by
  induction t using line_induction generalizing as ms with
  | nil =>
    rw [splitInclusive_nil, List.append_assoc] at h
    obtain ⟨-, hrest⟩ := List.append_eq_nil_iff.mp h.symm
    obtain ⟨rfl, -⟩ := List.append_eq_nil_iff.mp hrest
    rfl
  | last x hx hn =>
    rw [splitInclusive_of_not_mem hn hx, List.append_assoc] at h
    cases as with
    | cons a as =>
      obtain ⟨-, hrest⟩ := List.append_eq_nil_iff.mp (List.cons.inj h).2.symm
      obtain ⟨rfl, -⟩ := List.append_eq_nil_iff.mp hrest
      rfl
    | nil =>
      cases ms with
      | nil => rfl
      | cons m ms =>
        obtain ⟨rfl, hrest⟩ := List.cons.inj h
        obtain ⟨rfl, -⟩ := List.append_eq_nil_iff.mp hrest.symm
        rw [List.flatten_singleton, splitInclusive_of_not_mem hn hx]
  | line x t hn ih =>
    rw [splitInclusive_append hn] at h
    cases as with
    | cons a as => exact ih (List.cons.inj h).2
    | nil =>
      cases ms with
      | nil => rfl
      | cons m ms =>
        obtain ⟨rfl, hrest⟩ := List.cons.inj h
        have hflat : ((x ++ ['\n']) :: ms).flatten = x ++ '\n' :: ms.flatten := by simp
        rw [hflat, splitInclusive_append hn, @ih [] ms hrest]

/-- Joining lines adds nothing but line feeds. -/
theorem not_mem_joinLines {c : Char} (hc : c ≠ '\n') (h : ∀ l ∈ ls, c ∉ l) :
    c ∉ joinLines ls := by
  induction ls with
  | nil => simp
  | cons l ls ih =>
    have hl := h l (by simp)
    have hls := ih fun l hl => h l (by simp [hl])
    by_cases he : ls = []
    · simpa [he] using hl
    · rw [joinLines_cons l he]
      simp [hl, hc, hls]

/-- A line that is not empty among joined texts is a line of one of them. -/
theorem mem_splitOn_joinLines {text : Text}
    (h : text ∈ (joinLines ls).splitOn '\n') (hne : text ≠ []) :
    ∃ l ∈ ls, text ∈ l.splitOn '\n' := by
  induction ls with
  | nil => simp_all
  | cons l ls ih =>
    by_cases hls : ls = []
    · subst hls
      rw [joinLines_singleton] at h
      exact ⟨l, List.mem_singleton_self l, h⟩
    · rw [joinLines_cons l hls, List.splitOn_append_cons_self] at h
      rcases List.mem_append.mp h with h | h
      · exact ⟨l, List.mem_cons_self, h⟩
      · obtain ⟨l', hmem, hl'⟩ := ih h
        exact ⟨l', List.mem_cons_of_mem l hmem, hl'⟩

theorem newline_not_mem_lines {l : Text} (h : l ∈ lines t) : '\n' ∉ l := by
  induction t using line_induction with
  | nil => simp at h
  | last x hx hn =>
    rw [lines_of_not_mem hn hx, List.mem_singleton] at h
    rw [h]
    exact hn
  | line x t hn ih =>
    rw [lines_append_newline hn, List.mem_cons] at h
    rcases h with rfl | h
    · unfold stripSuffix
      split
      · exact fun hmem => hn (List.dropLast_subset x hmem)
      · exact hn
    · exact ih h

end Ezer.Lib
