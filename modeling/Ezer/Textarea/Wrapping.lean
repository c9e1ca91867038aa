import Ezer.Lib.Loop
import Ezer.Textarea.Area

/-!
# Wrapping around elements

The text is cut into rows: at every line break that is not inside an element, and
where a row would be too wide. An element is moved to the next row as a whole, and
so is a word where the row has a place to break.
-/

namespace Ezer.Textarea

open Lib

/-- How wide texts are, and the spans of a line that is shown. -/
structure Columns (Line : Type) where
  strWidth : Text → ℕ
  spans : Line → List Text

/-- The character that starts at an offset. -/
def charAt (t : Text) (n : ℕ) : Option Char :=
  match splitBytes n t with
  | some (_, c :: _) => some c
  | _ => none

theorem charAt_append (u : Text) (ch : Char) (v : Text) :
    charAt (u ++ ch :: v) (byteLen u) = some ch := by
  rw [charAt, splitBytes_append]

theorem exists_of_charAt {t : Text} {n : ℕ} {ch : Char} (h : charAt t n = some ch) :
    ∃ u v, t = u ++ ch :: v ∧ byteLen u = n := by
  unfold charAt at h
  split at h
  · rename_i u c v hsplit
    cases h
    obtain ⟨ht, hu⟩ := splitBytes_eq_some_iff.mp hsplit
    exact ⟨u, v, ht, hu⟩
  · cases h

/-- Whether a space or a tab is at an offset. -/
def blankAt (t : Text) (n : ℕ) : Prop := charAt t n = some ' ' ∨ charAt t n = some '\t'

instance (t : Text) (n : ℕ) : Decidable (blankAt t n) := inferInstanceAs (Decidable (_ ∨ _))

/-- The part of a text between two offsets, empty where they part a character. -/
def textSlice (t : Text) (first last : ℕ) : Text := (getBytes t first last).getD []

/-- The graphemes of a text from an offset on. -/
def Graphemes.graphemesFrom (g : Graphemes) (t : Text) : ℕ → ℕ → List Text
  | 0, _ => []
  | fuel + 1, n =>
    if byteLen t ≤ n then []
    else
      textSlice t n (g.nextGraphemeBoundary t n) ::
        g.graphemesFrom t fuel (g.nextGraphemeBoundary t n)

/-- The graphemes of a text. -/
def Graphemes.graphemes (g : Graphemes) (t : Text) : List Text := g.graphemesFrom t (byteLen t) 0

/-- Skip spaces and tabs, so many at most. -/
def skipBlanks (t : Text) : ℕ → ℕ → ℕ
  | 0, n => n
  | limit + 1, n => if blankAt t n then skipBlanks t limit (n + 1) else n

/-- Where the wrapping of a line is: the rows so far, the start of the row and how far it goes,
its width, and the place behind the last opportunity to break it. -/
structure WrapState where
  rows : List ByteRange
  lineStart : ℕ
  pos : ℕ
  displayW : ℕ
  lastBreakPos : Option ℕ

namespace TextArea

variable {Line : Type} (g : Graphemes) (c : Columns Line) (s : TextArea Line)

/-- How wide a grapheme is shown. -/
def graphemeDisplayWidth (grapheme : Text) : ℕ :=
  if grapheme = ['\t'] then s.tabWidth else c.strWidth grapheme

/-- How wide a plain text is shown. -/
def plainDisplayWidth (text : Text) : ℕ :=
  if s.tabWidth = 0 ∨ '\t' ∉ text then c.strWidth text
  else ((g.graphemes text).map (s.graphemeDisplayWidth c)).sum

/-- How wide the line is that an element is shown as. -/
def lineDisplayWidth (display : Line) : ℕ := ((c.spans display).map c.strWidth).sum

/-- How wide a range is shown, from an offset on, with the elements that are left. -/
def displayWidthFrom (limit : ℕ) : List (TextElement Line) → ℕ → ℕ
  | [], pos => if pos < limit then s.plainDisplayWidth g c (textSlice s.text.text pos limit) else 0
  | e :: elements, pos =>
    if limit ≤ e.range.start then
      if pos < limit then s.plainDisplayWidth g c (textSlice s.text.text pos limit) else 0
    else if e.range.stop ≤ pos then displayWidthFrom limit elements pos
    else
      let before :=
        if pos < e.range.start then
          s.plainDisplayWidth g c (textSlice s.text.text pos (min e.range.start limit))
        else 0
      let pos := if pos < e.range.start then min e.range.start limit else pos
      if limit ≤ pos then before
      else
        let first := max e.range.start pos
        let last := min e.range.stop limit
        if first < last then
          let shown :=
            match e.display with
            | some display =>
              if first = e.range.start then lineDisplayWidth c display
              else s.plainDisplayWidth g c (textSlice s.text.text first last)
            | none => s.plainDisplayWidth g c (textSlice s.text.text first last)
          before + shown + displayWidthFrom limit elements last
        else before + displayWidthFrom limit elements pos

/-- How wide a range is shown. -/
def displayWidthOfRange (first limit : ℕ) : ℕ :=
  if limit ≤ first then 0 else s.displayWidthFrom g c limit s.elements first

/-- One round of the search for the end of a line. -/
def newlineRound (pos : ℕ) : ForInStep ℕ :=
  if pos < s.len then
    match s.elements.find? fun e => e.range.start ≤ pos ∧ pos < e.range.stop with
    | some e => .yield e.range.stop
    | none => if charAt s.text.text pos = some '\n' then .done pos else .yield (pos + 1)
  else .done s.len

/-- The line break at an offset or behind it that is in no element. -/
def nextLogicalNewline (first : ℕ) : Option ℕ := whileLoop s.newlineRound (s.len + 1) first

/-- How wide an element is shown in a line. -/
def elementDisplayWidth (e : TextElement Line) (elemEnd : ℕ) : ℕ :=
  match e.display with
  | some display => lineDisplayWidth c display
  | none => s.plainDisplayWidth g c (textSlice s.text.text e.range.start elemEnd)

/-- Where the next row starts when the row is broken. -/
def nextLineStart (st : WrapState) : ℕ :=
  let breakAt := st.lastBreakPos.getD st.pos
  skipBlanks s.text.text (st.pos - breakAt) breakAt

/-- The rows with the row that is broken. -/
def brokenRows (st : WrapState) : List ByteRange :=
  st.rows ++ [⟨st.lineStart, st.lastBreakPos.getD st.pos⟩]

/-- One round of the wrapping of a line. -/
def wrapRound (width stop : ℕ) (st : WrapState) : ForInStep WrapState :=
  if stop ≤ st.pos then .done st
  else
    match s.elements.find? fun e => st.pos = e.range.start ∧ e.range.start < e.range.stop with
    | some e =>
      let elemEnd := min e.range.stop stop
      let elemDw := s.elementDisplayWidth g c e elemEnd
      if 0 < st.displayW ∧ st.displayW + elemDw > width then
        -- the element does not fit: it is read once more, on the next row
        .yield ⟨brokenRows st, s.nextLineStart st, s.nextLineStart st, 0, none⟩
      else .yield ⟨st.rows, st.lineStart, elemEnd, st.displayW + elemDw, some elemEnd⟩
    | none =>
      match (g.graphemes (textSlice s.text.text st.pos stop)).head? with
      | none => .done st
      | some grapheme =>
        let graphemeWidth := s.graphemeDisplayWidth c grapheme
        let next := st.pos + byteLen grapheme
        if st.displayW + graphemeWidth > width ∧ 0 < st.displayW then
          let lineStart := s.nextLineStart st
          if lineStart = st.pos then .yield ⟨brokenRows st, lineStart, next, graphemeWidth, none⟩
          else
            .yield ⟨brokenRows st, lineStart, st.pos, s.displayWidthOfRange g c lineStart st.pos,
              none⟩
        else
          .yield ⟨st.rows, st.lineStart, next, st.displayW + graphemeWidth,
            if grapheme = [' '] ∨ grapheme = ['\t'] then some next else st.lastBreakPos⟩

/-- The rows of one line. -/
def greedyWrapSegment (start stop width : ℕ) : Option (List ByteRange) :=
  if stop ≤ start then some [⟨start, stop⟩]
  else
    (whileLoop (s.wrapRound g c width stop) ((stop + 1) * (stop + 1) + 1)
      ⟨[], start, start, 0, none⟩).map fun st => st.rows ++ [⟨st.lineStart, stop⟩]

/-- The rows of the lines from an offset on. -/
def wrapLines (width : ℕ) : ℕ → ℕ → Option (List ByteRange)
  | 0, _ => none
  | lines + 1, segStart => do
    let segEnd ← s.nextLogicalNewline segStart
    let rows ← s.greedyWrapSegment g c segStart segEnd width
    if s.len ≤ segEnd then some rows
    else
      let more ← wrapLines width lines (segEnd + 1)
      some (rows ++ more)

/-- The rows of the text. -/
def elementAwareWrapRanges (width : ℕ) : Option (List ByteRange) :=
  s.wrapLines g c (max width 1) (s.len + 1) 0

end TextArea

/-! ### Rows one behind the other -/

section Blanks

variable {t : Text}

theorem le_skipBlanks (limit n : ℕ) : n ≤ skipBlanks t limit n := by
  induction limit generalizing n with
  | zero => exact le_rfl
  | succ limit ih =>
    rw [skipBlanks]
    split
    · exact (Nat.le_succ n).trans (ih (n + 1))
    · exact le_rfl

theorem skipBlanks_le (limit n : ℕ) : skipBlanks t limit n ≤ n + limit := by
  induction limit generalizing n with
  | zero => exact le_rfl
  | succ limit ih =>
    rw [skipBlanks]
    split
    · have := ih (n + 1)
      omega
    · omega

theorem blankAt_of_lt_skipBlanks {limit n m : ℕ} (hle : n ≤ m)
    (hlt : m < skipBlanks t limit n) : blankAt t m := by
  induction limit generalizing n with
  | zero => exact absurd hlt (by rw [skipBlanks]; omega)
  | succ limit ih =>
    rw [skipBlanks] at hlt
    split at hlt
    · rename_i hblank
      obtain rfl | hne := eq_or_lt_of_le hle
      · exact hblank
      · exact ih hne hlt
    · omega

/-- Where there is something else, nothing is skipped. -/
theorem skipBlanks_of_not_blankAt {n : ℕ} (h : ¬ blankAt t n) (limit : ℕ) :
    skipBlanks t limit n = n := by
  cases limit with
  | zero => rfl
  | succ limit => rw [skipBlanks, if_neg h]

end Blanks

section Graphemes

variable (g : Graphemes)

/-- The first grapheme of a text reaches to the first boundary in it. -/
theorem head?_graphemes {t grapheme : Text} (h : (g.graphemes t).head? = some grapheme) :
    0 < byteLen grapheme ∧ byteLen grapheme = g.nextGraphemeBoundary t 0 ∧
      ∃ rest, t = grapheme ++ rest := by
  unfold Graphemes.graphemes at h
  cases hlen : byteLen t with
  | zero => simp [hlen, Graphemes.graphemesFrom] at h
  | succ n =>
    rw [hlen, Graphemes.graphemesFrom, if_neg (by omega), List.head?_cons, Option.some.injEq] at h
    have hnext := g.lt_next t (n := 0) (by omega)
    obtain ⟨u, v, hsplit⟩ := g.char t _ (g.isBoundary_next t (n := 0))
    obtain ⟨ht, hu⟩ := splitBytes_eq_some_iff.mp hsplit
    have hslice : textSlice t 0 (g.nextGraphemeBoundary t 0) = u := by
      have := getBytes_append [] u v
      rw [List.nil_append, byteLen_nil, Nat.zero_add, hu, ← ht] at this
      rw [textSlice, this, Option.getD_some]
    rw [hslice] at h
    subst h
    exact ⟨by omega, hu, v, ht⟩

/-- A part of a text that is not empty is there. -/
theorem getBytes_textSlice {t : Text} {first last : ℕ} (h : textSlice t first last ≠ []) :
    getBytes t first last = some (textSlice t first last) := by
  unfold textSlice at h ⊢
  cases hslice : getBytes t first last with
  | none =>
    rw [hslice] at h
    exact absurd rfl h
  | some m => rfl

end Graphemes

section Rows

variable {Line : Type} (s : TextArea Line)

/-- A line break that is in no element. -/
def LogicalNewline (n : ℕ) : Prop :=
  charAt s.text.text n = some '\n' ∧
    ∀ e ∈ s.elements, ¬ (e.range.start ≤ n ∧ n < e.range.stop)

/-- Rows from an offset to the end of the text. The next row starts where a row is broken, behind
the blanks there, or behind the line break that ends its line. -/
inductive Rows : ℕ → List ByteRange → Prop
  | last {start : ℕ} : start ≤ s.len → Rows start [⟨start, s.len⟩]
  | soft {start stop next : ℕ} {rows : List ByteRange} : start < stop → stop ≤ next →
      (∀ n, stop ≤ n → n < next → blankAt s.text.text n) → Rows next rows →
      Rows start (⟨start, stop⟩ :: rows)
  | hard {start stop : ℕ} {rows : List ByteRange} : start ≤ stop → LogicalNewline s stop →
      Rows (stop + 1) rows → Rows start (⟨start, stop⟩ :: rows)

variable {s}

/-- The rows start where they are said to, or behind it. -/
theorem Rows.start_le {start : ℕ} {rows : List ByteRange} (h : Rows s start rows) :
    ∀ r ∈ rows, start ≤ r.start := by
  induction h with
  | last => simp
  | soft hlt hle _ _ ih =>
    intro r hr
    rcases List.mem_cons.1 hr with rfl | hr
    · exact le_rfl
    · exact (hlt.le.trans hle).trans (ih r hr)
  | hard hle _ _ ih =>
    intro r hr
    rcases List.mem_cons.1 hr with rfl | hr
    · exact le_rfl
    · exact (hle.trans (Nat.le_succ _)).trans (ih r hr)

/-- Rows are in order and do not overlap. -/
theorem Rows.pairwise {start : ℕ} {rows : List ByteRange} (h : Rows s start rows) :
    rows.Pairwise fun a b => a.stop ≤ b.start := by
  induction h with
  | last => exact List.pairwise_singleton _ _
  | soft _ hle _ hrest ih =>
    exact List.pairwise_cons.2 ⟨fun r hr => hle.trans (hrest.start_le r hr), ih⟩
  | hard _ _ hrest ih =>
    exact List.pairwise_cons.2 ⟨fun r hr => (Nat.le_succ _).trans (hrest.start_le r hr), ih⟩

theorem Rows.bounds {start : ℕ} {rows : List ByteRange} (h : Rows s start rows) :
    start ≤ s.len ∧ ∀ r ∈ rows, r.start ≤ r.stop ∧ r.stop ≤ s.len := by
  induction h with
  | last hle =>
    refine ⟨hle, fun r hr => ?_⟩
    rw [List.mem_singleton.1 hr]
    exact ⟨hle, le_rfl⟩
  | soft hlt hle _ _ ih =>
    refine ⟨by omega, fun r hr => ?_⟩
    rcases List.mem_cons.1 hr with rfl | hr
    · exact ⟨hlt.le, hle.trans ih.1⟩
    · exact ih.2 r hr
  | hard hle _ _ ih =>
    refine ⟨by omega, fun r hr => ?_⟩
    rcases List.mem_cons.1 hr with rfl | hr
    · exact ⟨hle, (Nat.le_succ _).trans ih.1⟩
    · exact ih.2 r hr

/-- Every byte is in a row, or it is a line break between two lines or a blank between two rows. -/
theorem Rows.covers {start : ℕ} {rows : List ByteRange} (h : Rows s start rows) {n : ℕ}
    (hle : start ≤ n) (hlt : n < s.len) :
    (∃ r ∈ rows, r.start ≤ n ∧ n < r.stop) ∨ LogicalNewline s n ∨ blankAt s.text.text n := by
  induction h with
  | last => exact .inl ⟨_, List.mem_cons_self .., hle, hlt⟩
  | @soft start stop next rows _ _ hblank _ ih =>
    by_cases hrow : n < stop
    · exact .inl ⟨_, List.mem_cons_self .., hle, hrow⟩
    · by_cases hnext : n < next
      · exact .inr (.inr (hblank n (by omega) hnext))
      · obtain ⟨r, hr, hn⟩ | hn := ih (by omega)
        · exact .inl ⟨r, List.mem_cons_of_mem _ hr, hn⟩
        · exact .inr hn
  | @hard start stop rows _ hnewline _ ih =>
    by_cases hrow : n < stop
    · exact .inl ⟨_, List.mem_cons_self .., hle, hrow⟩
    · obtain rfl | hne := eq_or_lt_of_le (not_lt.1 hrow)
      · exact .inr (.inl hnewline)
      · obtain ⟨r, hr, hn⟩ | hn := ih hne
        · exact .inl ⟨r, List.mem_cons_of_mem _ hr, hn⟩
        · exact .inr hn

end Rows

/-! ### The loops end -/

namespace TextArea

variable {Line : Type} (g : Graphemes) (c : Columns Line) (s : TextArea Line)

/-- The search for the end of a line ends at a line break or at the end of the text. -/
theorem nextLogicalNewline_spec {first : ℕ} (hfirst : first ≤ s.len) :
    ∃ stop, s.nextLogicalNewline first = some stop ∧ first ≤ stop ∧ stop ≤ s.len ∧
      (stop < s.len → LogicalNewline s stop) := by
  have hround (pos next : ℕ) (hpos : first ≤ pos) (h : s.newlineRound pos = .yield next) :
      first ≤ next ∧ s.len - next < s.len - pos := by
    unfold newlineRound at h
    split at h
    · split at h
      · rename_i e he
        have hin := List.find?_some he
        simp only [decide_eq_true_eq] at hin
        cases h
        omega
      · split at h <;> cases h
        omega
    · cases h
  obtain ⟨before, last, hbefore, hlast, hall⟩ :=
    exists_whileLoop_of_invariant (fun pos => first ≤ pos) (fun pos => s.len - pos) hround
      (a := first) le_rfl
  refine ⟨last, hall _ (by omega), ?_⟩
  unfold newlineRound at hlast
  split at hlast
  · split at hlast
    · cases hlast
    · rename_i hlt _ hnone
      split at hlast
      · rename_i hnewline
        cases hlast
        refine ⟨hbefore, hlt.le, fun _ => ⟨hnewline, fun e he hin => ?_⟩⟩
        have := List.find?_eq_none.1 hnone e he
        simp only [decide_eq_true_eq] at this
        exact this hin
      · cases hlast
  · cases hlast
    exact ⟨hfirst, le_rfl, fun h => absurd h (lt_irrefl _)⟩

/-- What holds in every round of the wrapping of a line: the rows so far go on with the row that is
begun, which is ahead of the last opportunity to break and holds something as soon as it has a
width. -/
structure Wrapping (start stop : ℕ) (st : WrapState) : Prop where
  chain : ∀ rest, Rows s st.lineStart rest → Rows s start (st.rows ++ rest)
  lineStart_lt : st.lineStart < stop
  lineStart_le : st.lineStart ≤ st.pos
  pos_le : st.pos ≤ stop
  moved : 0 < st.displayW → st.lineStart < st.pos
  lastBreak : ∀ b, st.lastBreakPos = some b → st.lineStart < b ∧ b ≤ st.pos

/-- How much of a line is left: each new row begins later, and in a row the position moves on. -/
def leftOver (stop : ℕ) (st : WrapState) : ℕ :=
  (stop - st.lineStart) * (stop + 1) + (stop - st.pos)

namespace Wrapping

variable {s} {start stop : ℕ} {st : WrapState}

theorem breakAt_bounds (h : Wrapping s start stop st) (hwidth : 0 < st.displayW) :
    st.lineStart < st.lastBreakPos.getD st.pos ∧ st.lastBreakPos.getD st.pos ≤ st.pos := by
  cases hlast : st.lastBreakPos with
  | none => exact ⟨h.moved hwidth, le_rfl⟩
  | some b => exact h.lastBreak b hlast

theorem nextLineStart_bounds (h : Wrapping s start stop st) (hwidth : 0 < st.displayW) :
    st.lineStart < s.nextLineStart st ∧ s.nextLineStart st ≤ st.pos := by
  obtain ⟨hlt, hle⟩ := h.breakAt_bounds hwidth
  have hfirst := @le_skipBlanks s.text.text (st.pos - st.lastBreakPos.getD st.pos)
    (st.lastBreakPos.getD st.pos)
  have hlast := @skipBlanks_le s.text.text (st.pos - st.lastBreakPos.getD st.pos)
    (st.lastBreakPos.getD st.pos)
  unfold nextLineStart
  dsimp only
  omega

/-- A position further on in the same row. -/
theorem advance (h : Wrapping s start stop st) {pos width : ℕ} {lastBreak : Option ℕ}
    (hpos : st.pos < pos) (hstop : pos ≤ stop)
    (hlast : lastBreak = some pos ∨ lastBreak = st.lastBreakPos) :
    Wrapping s start stop ⟨st.rows, st.lineStart, pos, width, lastBreak⟩ ∧
      leftOver stop ⟨st.rows, st.lineStart, pos, width, lastBreak⟩ < leftOver stop st := by
  have hle := h.lineStart_le
  constructor
  · refine ⟨h.chain, h.lineStart_lt, by dsimp only; omega, hstop, fun _ => by dsimp only; omega, ?_⟩
    rintro b rfl
    rcases hlast with hb | hb
    · cases hb
      exact ⟨by dsimp only; omega, le_rfl⟩
    · have := h.lastBreak b hb.symm
      exact ⟨this.1, by dsimp only; omega⟩
  · unfold leftOver
    dsimp only
    omega

/-- A new row. -/
theorem newRow (h : Wrapping s start stop st) (hwidth : 0 < st.displayW) (hlt : st.pos < stop)
    {pos width : ℕ} (hpos : s.nextLineStart st ≤ pos) (hstop : pos ≤ stop)
    (hmoved : 0 < width → s.nextLineStart st < pos) :
    Wrapping s start stop ⟨brokenRows st, s.nextLineStart st, pos, width, none⟩ ∧
      leftOver stop ⟨brokenRows st, s.nextLineStart st, pos, width, none⟩ <
        leftOver stop st := by
  obtain ⟨hbreak, -⟩ := h.breakAt_bounds hwidth
  obtain ⟨hnext, hle⟩ := h.nextLineStart_bounds hwidth
  constructor
  · refine ⟨fun rest hrest => ?_, by dsimp only; omega, hpos, hstop, hmoved, by simp⟩
    rw [brokenRows, List.append_assoc]
    exact h.chain _ (.soft hbreak (le_skipBlanks _ _)
      (fun n hn hlt => blankAt_of_lt_skipBlanks hn hlt) hrest)
  · have hfewer : (stop - s.nextLineStart st) * (stop + 1) + (stop + 1) ≤
        (stop - st.lineStart) * (stop + 1) := by
      rw [← Nat.succ_mul]
      exact Nat.mul_le_mul_right _ (by omega)
    unfold leftOver
    dsimp only
    omega

/-- Each round of the wrapping keeps what holds, and leaves less of the line. -/
theorem round (h : Wrapping s start stop st) (width : ℕ) {next : WrapState}
    (hround : s.wrapRound g c width stop st = .yield next) :
    Wrapping s start stop next ∧ leftOver stop next < leftOver stop st := by
  unfold wrapRound at hround
  split at hround
  · cases hround
  rename_i hlt
  rw [not_le] at hlt
  split at hround
  · rename_i e he
    have hin := List.find?_some he
    simp only [decide_eq_true_eq] at hin
    dsimp only at hround
    split at hround
    · rename_i hbreak
      cases hround
      have hnext := h.nextLineStart_bounds hbreak.1
      exact h.newRow hbreak.1 hlt le_rfl (by omega) (by simp)
    · cases hround
      exact h.advance (by omega) (Nat.min_le_right _ _) (.inl rfl)
  · split at hround
    · cases hround
    · rename_i grapheme hgrapheme
      obtain ⟨hpos, -, rest, hrest⟩ := head?_graphemes g hgrapheme
      have hslice : textSlice s.text.text st.pos stop ≠ [] := by
        rw [hrest]
        intro hnil
        rw [(List.append_eq_nil_iff.1 hnil).1] at hpos
        exact absurd hpos (lt_irrefl 0)
      obtain ⟨a, b, -, ha, hab⟩ := getBytes_eq_some (getBytes_textSlice hslice)
      have hstop : st.pos + byteLen grapheme ≤ stop := by
        rw [hrest, byteLen_append] at hab
        omega
      dsimp only at hround
      split at hround
      · rename_i hbreak
        have hnext := h.nextLineStart_bounds hbreak.2
        split at hround <;> cases hround
        · exact h.newRow hbreak.2 hlt (by omega) hstop fun _ => by omega
        · exact h.newRow hbreak.2 hlt (by omega) hlt.le fun _ => by omega
      · cases hround
        refine h.advance (by omega) hstop ?_
        split
        · exact .inl rfl
        · exact .inr rfl

end Wrapping

theorem eq_of_wrapRound_done {width stop : ℕ} {st last : WrapState}
    (h : s.wrapRound g c width stop st = .done last) : last = st := by
  unfold wrapRound at h
  split at h
  · cases h
    rfl
  · split at h
    · dsimp only at h
      split at h <;> cases h
    · split at h
      · cases h
        rfl
      · dsimp only at h
        split at h
        · split at h <;> cases h
        · cases h

/-- The wrapping of a line ends, and what its rounds keep holds at the end. -/
theorem exists_wrapped {start stop : ℕ} (width : ℕ) (hlt : start < stop) (Inv : WrapState → Prop)
    (hround : ∀ st next, Wrapping s start stop st → Inv st →
      s.wrapRound g c width stop st = .yield next → Inv next)
    (hstart : Inv ⟨[], start, start, 0, none⟩) :
    ∃ st, s.greedyWrapSegment g c start stop width = some (st.rows ++ [⟨st.lineStart, stop⟩]) ∧
      Wrapping s start stop st ∧ Inv st ∧ s.wrapRound g c width stop st = .done st := by
  have hfirst : Wrapping s start stop ⟨[], start, start, 0, none⟩ :=
    ⟨fun rest hrest => hrest, hlt, le_rfl, hlt.le, fun h => absurd h (lt_irrefl 0), by simp⟩
  obtain ⟨st, last, ⟨hst, hinv⟩, hdone, hall⟩ := exists_whileLoop_of_invariant
    (fun st => Wrapping s start stop st ∧ Inv st) (leftOver stop)
    (fun st next hst h => ⟨⟨(hst.1.round g c width h).1, hround st next hst.1 hst.2 h⟩,
      (hst.1.round g c width h).2⟩) (a := ⟨[], start, start, 0, none⟩) ⟨hfirst, hstart⟩
  obtain rfl := s.eq_of_wrapRound_done g c hdone
  refine ⟨last, ?_, hst, hinv, hdone⟩
  have hfuel : leftOver stop ⟨[], start, start, 0, none⟩ < (stop + 1) * (stop + 1) + 1 := by
    have := Nat.mul_le_mul_right (stop + 1) (Nat.sub_le stop start)
    unfold leftOver
    dsimp only
    rw [Nat.succ_mul]
    omega
  rw [greedyWrapSegment, if_neg (by omega), hall _ hfuel, Option.map_some]

/-- The rows of a line end where it ends. -/
theorem greedyWrapSegment_rows {start stop : ℕ} (width : ℕ) (hle : start ≤ stop) :
    ∃ rows, s.greedyWrapSegment g c start stop width = some rows ∧
      ∀ rest, (∀ n, n ≤ stop → Rows s n (⟨n, stop⟩ :: rest)) → Rows s start (rows ++ rest) := by
  obtain rfl | hlt := eq_or_lt_of_le hle
  · refine ⟨[⟨start, start⟩], ?_, fun rest hrest => hrest start le_rfl⟩
    rw [greedyWrapSegment, if_pos le_rfl]
  · obtain ⟨st, hrows, hst, -, -⟩ := s.exists_wrapped g c width hlt (fun _ => True)
      (fun _ _ _ _ _ => trivial) trivial
    refine ⟨_, hrows, fun rest hrest => ?_⟩
    rw [List.append_assoc]
    exact hst.chain _ (hrest _ hst.lineStart_lt.le)

/-- The wrapping of the lines ends: the rows are one behind the other to the end of the text, and
what holds of the rows of each line holds of them all. -/
theorem wrapLines_spec (width : ℕ) (Start : ℕ → Prop) (Row : ByteRange → Prop)
    (hline : ∀ start stop rows, Start start → start ≤ stop → stop ≤ s.len →
      (stop < s.len → LogicalNewline s stop) →
      s.greedyWrapSegment g c start stop width = some rows →
        (∀ r ∈ rows, Row r) ∧ (stop < s.len → Start (stop + 1)))
    {lines segStart : ℕ} (hstart : Start segStart) (hle : segStart ≤ s.len)
    (hlines : s.len - segStart < lines) :
    ∃ rows, s.wrapLines g c width lines segStart = some rows ∧ Rows s segStart rows ∧
      ∀ r ∈ rows, Row r := by
  induction lines generalizing segStart with
  | zero => omega
  | succ lines ih =>
    obtain ⟨stop, hstop, hfirst, hlast, hnewline⟩ := s.nextLogicalNewline_spec hle
    obtain ⟨rows, hrows, hchain⟩ := s.greedyWrapSegment_rows g c width hfirst
    obtain ⟨hrow, hnext⟩ := hline segStart stop rows hstart hfirst hlast hnewline hrows
    unfold wrapLines
    rw [hstop, Option.bind_eq_bind, Option.bind_some, hrows, Option.bind_eq_bind,
      Option.bind_some]
    split
    · rename_i hend
      obtain rfl := le_antisymm hlast hend
      refine ⟨rows, rfl, ?_, hrow⟩
      have := hchain [] fun n hn => .last hn
      rwa [List.append_nil] at this
    · rename_i hmore
      rw [not_le] at hmore
      obtain ⟨more, hmoreRows, hrest, hmoreRow⟩ := ih (hnext hmore) (by omega) (by omega)
      rw [hmoreRows]
      refine ⟨rows ++ more, rfl, hchain more fun n hn => .hard hn (hnewline hmore) hrest, ?_⟩
      intro r hr
      rcases List.mem_append.1 hr with hr | hr
      · exact hrow r hr
      · exact hmoreRow r hr

end TextArea

end Ezer.Textarea
