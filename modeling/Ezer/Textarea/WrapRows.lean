import Ezer.Textarea.Elements
import Ezer.Textarea.Marks
import Ezer.Textarea.Wrapping

/-!
# The rows of a wrapped text

Where elements begin and end between graphemes, and nothing combines with a blank,
rows begin and end between graphemes and elements, and a row is too wide only for
one grapheme or element in it.
-/

namespace Ezer.Textarea

open Lib

/-- A segmentation that is read from left to right: the text up to a character tells whether a
grapheme ends before it, and from a boundary on a text is cut like a text of its own. A tab begins a
grapheme. -/
structure Graphemes.Local (g : Graphemes) : Prop where
  before : ∀ u v n, n < byteLen u → g.isBoundary (u ++ v) n = g.isBoundary u n
  behind : ∀ u v n, g.isBoundary (u ++ v) (byteLen u) = true →
    g.isBoundary v n = g.isBoundary (u ++ v) (byteLen u + n)
  beforeTab : ∀ u v, g.isBoundary (u ++ '\t' :: v) (byteLen u) = true

/-- Widths that add up at the boundaries of graphemes. -/
structure Columns.Additive {Line : Type} (c : Columns Line) (g : Graphemes) : Prop where
  nil : c.strWidth [] = 0
  append : ∀ u v, g.isBoundary (u ++ v) (byteLen u) = true →
    c.strWidth (u ++ v) = c.strWidth u + c.strWidth v

/-- An offset inside a line break of two characters. -/
def InLineBreak (t : Text) (n : ℕ) : Prop := ∃ u v, t = u ++ '\r' :: '\n' :: v ∧ n = byteLen u + 1

/-- Widths that fit, or of which one at most is not zero. -/
def Narrow (width : ℕ) (widths : List ℕ) : Prop :=
  widths.sum ≤ width ∨ (widths.filter (0 < ·)).length ≤ 1

theorem Narrow.append_left {width : ℕ} {front back : List ℕ} (h : Narrow width (front ++ back)) :
    Narrow width front := by
  rcases h with h | h
  · rw [List.sum_append] at h
    exact .inl (by omega)
  · rw [List.filter_append, List.length_append] at h
    exact .inr (by omega)

theorem Narrow.append_right {width : ℕ} {front back : List ℕ} (h : Narrow width (front ++ back)) :
    Narrow width back := by
  rcases h with h | h
  · rw [List.sum_append] at h
    exact .inl (by omega)
  · rw [List.filter_append, List.length_append] at h
    exact .inr (by omega)

/-- One more width, where there was none before or where it fits. -/
theorem narrow_concat {width w : ℕ} {widths : List ℕ}
    (h : widths.sum = 0 ∨ widths.sum + w ≤ width) : Narrow width (widths ++ [w]) := by
  rcases h with h | h
  · right
    have hnone : widths.filter (0 < ·) = [] := by
      rw [List.filter_eq_nil_iff]
      intro n hn
      simpa using List.sum_eq_zero_iff_forall_eq_nat.1 h n hn
    rw [List.filter_append, hnone, List.nil_append]
    exact List.length_filter_le _ _
  · left
    rwa [List.sum_append, List.sum_singleton]

namespace TextArea

variable {Line : Type} (g : Graphemes) (c : Columns Line) (s : TextArea Line)

/-- An offset that parts no element, and no grapheme but a line break of two characters. -/
def IsEdge (n : ℕ) : Prop :=
  Outside n s.elementRanges ∧ (g.isBoundary s.text.text n = true ∨ InLineBreak s.text.text n)

/-- An offset where no element with a text in it begins. -/
def NoElementAt (n : ℕ) : Prop :=
  ∀ e ∈ s.elements, e.range.start = n → e.range.stop ≤ e.range.start

/-- A part of the text that is one grapheme, outside the elements. -/
structure GraphemeAt (p next : ℕ) (m : Text) : Prop where
  bytes : getBytes s.text.text p next = some m
  nonempty : m ≠ []
  noElement : NoElementAt s p
  inside : ∀ n, p < n → n < next → g.isBoundary s.text.text n = false

/-- The widths of the elements and graphemes from an offset to another one. -/
inductive Tokens : ℕ → ℕ → List ℕ → Prop
  | nil (n : ℕ) : Tokens n n []
  | element {e : TextElement Line} {q : ℕ} {widths : List ℕ} : e ∈ s.elements →
      e.range.start < e.range.stop → Tokens e.range.stop q widths →
      Tokens e.range.start q (s.elementDisplayWidth g c e e.range.stop :: widths)
  | grapheme {p next q : ℕ} {m : Text} {widths : List ℕ} : GraphemeAt g s p next m →
      IsEdge g s next → Tokens next q widths →
      Tokens p q (s.graphemeDisplayWidth c m :: widths)

/-- A row that begins and ends between elements and graphemes, and fits or holds one element or
grapheme at most that has a width. -/
structure RowOk (width : ℕ) (r : ByteRange) : Prop where
  start : IsEdge g s r.start
  stop : IsEdge g s r.stop
  narrow : ∃ widths, Tokens g c s r.start r.stop widths ∧ Narrow width widths

/-- Elements that are in order and apart and begin and end between graphemes, and blanks outside
of them that end a grapheme. -/
structure WellSet : Prop where
  sorted : s.elements.Pairwise fun a b => a.range.stop ≤ b.range.start
  ordered : ∀ e ∈ s.elements, e.range.start ≤ e.range.stop
  aligned : ∀ e ∈ s.elements, g.isBoundary s.text.text e.range.start = true ∧
    g.isBoundary s.text.text e.range.stop = true
  blanks : ∀ n, blankAt s.text.text n →
    (∀ e ∈ s.elements, ¬ (e.range.start ≤ n ∧ n < e.range.stop)) →
      g.isBoundary s.text.text (n + 1) = true

/-! ### Graphemes one behind the other -/

/-- Graphemes from an offset to another one, none of them a blank. -/
inductive Plain : ℕ → ℕ → List ℕ → Prop
  | nil (n : ℕ) : Plain n n []
  | grapheme {p next q : ℕ} {m : Text} {widths : List ℕ} : GraphemeAt g s p next m →
      m ≠ [' '] → m ≠ ['\t'] → Outside next s.elementRanges →
      g.isBoundary s.text.text next = true → Plain next q widths →
      Plain p q (s.graphemeDisplayWidth c m :: widths)

variable {g c s}

variable {n p q : ℕ}

theorem outside_iff : Outside n s.elementRanges ↔
    ∀ e ∈ s.elements, n ≤ e.range.start ∨ e.range.stop ≤ n := by
  simp [Outside, elementRanges]

variable {m : Text}

theorem GraphemeAt.next_eq {next : ℕ} (h : GraphemeAt g s p next m) :
    next = p + byteLen m ∧ p < next := by
  obtain ⟨a, b, -, ha, hb⟩ := getBytes_eq_some h.bytes
  have := byteLen_pos h.nonempty
  omega

theorem Tokens.append {r : ℕ} {front back : List ℕ} (h : Tokens g c s p q front)
    (hback : Tokens g c s q r back) : Tokens g c s p r (front ++ back) := by
  induction h with
  | nil => exact hback
  | element he hlt _ ih => exact .element he hlt (ih hback)
  | grapheme hm hedge _ ih => exact .grapheme hm hedge (ih hback)

theorem Plain.append {r : ℕ} {front back : List ℕ} (h : Plain g c s p q front)
    (hback : Plain g c s q r back) : Plain g c s p r (front ++ back) := by
  induction h with
  | nil => exact hback
  | grapheme hm hspace htab hout hbound _ ih =>
    exact .grapheme hm hspace htab hout hbound (ih hback)

variable {widths : List ℕ}

theorem Plain.le (h : Plain g c s p q widths) : p ≤ q := by
  induction h with
  | nil => exact le_rfl
  | grapheme hm _ _ _ _ _ ih => exact hm.next_eq.2.le.trans ih

/-! ### Reading from an edge on -/

section Reading

variable (hlocal : g.Local) (hset : WellSet g s)

include hlocal in
/-- Inside a text the boundaries of a part that begins at one are those of the text, and so is its
end where the part goes on. -/
theorem isBoundary_part {a b : Text} (hstart : g.isBoundary (a ++ m ++ b) (byteLen a) = true)
    (hn : n < byteLen m) :
    g.isBoundary m n = g.isBoundary (a ++ m ++ b) (byteLen a + n) := by
  rw [List.append_assoc] at hstart ⊢
  rw [← hlocal.behind a (m ++ b) n hstart, hlocal.before m b n hn]

include hlocal in
theorem head?_graphemes_textSlice {stop : ℕ} (hp : g.isBoundary s.text.text p = true)
    (hm : (g.graphemes (textSlice s.text.text p stop)).head? = some m) :
    getBytes s.text.text p (p + byteLen m) = some m ∧ m ≠ [] ∧ p + byteLen m ≤ stop ∧
      (∀ n, p < n → n < p + byteLen m → g.isBoundary s.text.text n = false) ∧
      (g.isBoundary s.text.text (p + byteLen m) = true ∨ p + byteLen m = stop) := by
  obtain ⟨hpos, hlen, rest, hrest⟩ := head?_graphemes g hm
  have hne : m ≠ [] := by
    rintro rfl
    exact absurd hpos (lt_irrefl 0)
  have hslice : textSlice s.text.text p stop ≠ [] := by simp [hrest, hne]
  obtain ⟨a, b, ht, ha, hab⟩ := getBytes_eq_some (getBytes_textSlice hslice)
  rw [hrest] at ht hab hlen
  rw [byteLen_append] at hab
  rw [ht, ← ha] at hp
  have hpart {n : ℕ} (hn : n < byteLen (m ++ rest)) := isBoundary_part hlocal hp hn
  rw [byteLen_append] at hpart
  refine ⟨?_, hne, by omega, fun n hpn hn => ?_, ?_⟩
  · have := getBytes_append a m (rest ++ b)
    rw [ha, ← List.append_assoc, List.append_assoc a] at this
    rw [ht]
    exact this
  · -- a boundary before the first one of the part
    obtain ⟨k, rfl⟩ := Nat.exists_eq_add_of_le hpn.le
    have hk := hpart (n := k) (by omega)
    rw [ht, ← ha, ← hk]
    by_contra hbound
    rw [Bool.not_eq_false] at hbound
    have hle : g.nextGraphemeBoundary (m ++ rest) 0 ≤ k := by
      rw [Graphemes.nextGraphemeBoundary, if_neg (by rw [byteLen_append]; omega)]
      exact g.firstFrom_le _ hbound (by omega) (by rw [byteLen_append]; omega)
    omega
  · by_cases hrest' : rest = []
    · right
      rw [hrest', byteLen_nil] at hab
      omega
    · left
      have := byteLen_pos hrest'
      rw [ht, ← ha, ← hpart (by omega), hlen]
      exact g.isBoundary_next _ _

/-- Something is read before the end of the text. -/
theorem head?_graphemes_ne_none {stop : ℕ} (hlt : p < stop)
    (hp : g.isBoundary s.text.text p = true) (hstop : IsEdge g s stop) :
    (g.graphemes (textSlice s.text.text p stop)).head? ≠ none := by
  obtain ⟨a, rest, hsplit⟩ := g.char _ _ hp
  obtain ⟨ht, ha⟩ := splitBytes_eq_some_iff.mp hsplit
  have hcut : ∃ u v, s.text.text = u ++ v ∧ byteLen u = stop := by
    rcases hstop.2 with hbound | ⟨u, v, hu, hlen⟩
    · obtain ⟨u, v, hsplit⟩ := g.char _ _ hbound
      exact ⟨u, v, splitBytes_eq_some_iff.mp hsplit⟩
    · exact ⟨u ++ ['\r'], '\n' :: v, by rw [hu, List.append_assoc]; rfl,
        by rw [hlen, byteLen_append]; rfl⟩
  obtain ⟨u, v, hu, hlen⟩ := hcut
  obtain ⟨m, rfl⟩ := prefix_of_byteLen ⟨rest, ht.symm⟩ ⟨v, hu.symm⟩ (by omega)
  have hm := getBytes_append a m v
  rw [byteLen_append] at hlen
  rw [← hu, ha, ← ha, hlen, ha] at hm
  rw [textSlice, hm, Option.getD_some]
  have hpos : 0 < byteLen m := by omega
  unfold Graphemes.graphemes
  cases hn : byteLen m with
  | zero => omega
  | succ n =>
    rw [Graphemes.graphemesFrom, if_neg (by omega)]
    simp

include hset in
theorem graphemeAt_of_head? (hlocal : g.Local) {stop : ℕ}
    (hp : g.isBoundary s.text.text p = true) (hout : Outside p s.elementRanges)
    (hnone : NoElementAt s p) (hstop : IsEdge g s stop)
    (hm : (g.graphemes (textSlice s.text.text p stop)).head? = some m) :
    GraphemeAt g s p (p + byteLen m) m ∧ p + byteLen m ≤ stop ∧
      IsEdge g s (p + byteLen m) ∧
      (p + byteLen m < stop → g.isBoundary s.text.text (p + byteLen m) = true) := by
  obtain ⟨hbytes, hne, hle, hinside, hend⟩ := head?_graphemes_textSlice hlocal hp hm
  have hpos := byteLen_pos hne
  have hnext : Outside (p + byteLen m) s.elementRanges := by
    rw [outside_iff] at hout ⊢
    intro e he
    rcases hout e he with hbefore | hafter
    · -- an element that begins behind the offset begins at a boundary
      rcases eq_or_lt_of_le hbefore with heq | hlt
      · right
        have := hnone e he heq.symm
        omega
      · by_contra hcontra
        have := hinside e.range.start hlt (by omega)
        rw [(hset.aligned e he).1] at this
        cases this
    · right
      omega
  refine ⟨⟨hbytes, hne, hnone, hinside⟩, hle, ⟨hnext, ?_⟩, fun hlt => ?_⟩
  · rcases hend with hbound | heq
    · exact .inl hbound
    · rw [heq]
      exact hstop.2
  · rcases hend with hbound | heq
    · exact hbound
    · omega

include hset in
theorem edge_of_element {e : TextElement Line} (he : e ∈ s.elements) :
    Outside e.range.stop s.elementRanges ∧ g.isBoundary s.text.text e.range.stop = true := by
  refine ⟨outside_iff.2 fun e' he' => ?_, (hset.aligned e he).2⟩
  obtain ⟨before, after, hsplit⟩ := List.append_of_mem he
  have hsorted := hset.sorted
  rw [hsplit, List.pairwise_append, List.pairwise_cons] at hsorted
  obtain ⟨-, ⟨hafter, -⟩, hbefore⟩ := hsorted
  rw [hsplit, List.mem_append, List.mem_cons] at he'
  rcases he' with hmem | rfl | hmem
  · right
    exact (hbefore e' hmem e List.mem_cons_self).trans (hset.ordered e he)
  · exact .inr le_rfl
  · exact .inl (hafter e' hmem)

/-- An offset at the edge of the elements where none begins is in no element. -/
theorem not_in_element (hout : Outside n s.elementRanges) (hnone : NoElementAt s n) :
    ∀ e ∈ s.elements, ¬ (e.range.start ≤ n ∧ n < e.range.stop) := by
  rintro e he ⟨hle, hlt⟩
  rcases outside_iff.1 hout e he with hbefore | hafter
  · have := hnone e he (le_antisymm hle hbefore)
    omega
  · omega

include hset in
/-- No blank begins a grapheme that is not a blank. -/
theorem GraphemeAt.not_blankAt {next : ℕ} (h : GraphemeAt g s p next m)
    (hout : Outside p s.elementRanges) (hspace : m ≠ [' ']) (htab : m ≠ ['\t']) :
    ¬ blankAt s.text.text p := by
  intro hblank
  have hend := hset.blanks p hblank (not_in_element hout h.noElement)
  obtain ⟨hnext, hlt⟩ := h.next_eq
  have hle : next ≤ p + 1 := by
    by_contra hcontra
    rw [h.inside (p + 1) (Nat.lt_succ_self p) (by omega)] at hend
    cases hend
  have hone : byteLen m = 1 := by omega
  obtain ⟨a, b, ht, ha, -⟩ := getBytes_eq_some h.bytes
  obtain ⟨ch, rest, rfl⟩ := List.exists_cons_of_ne_nil h.nonempty
  have hrest : rest = [] := by
    by_contra hne
    have := byteLen_pos hne
    have := Char.utf8Size_pos ch
    rw [byteLen_cons] at hone
    omega
  subst hrest
  have hchar : charAt s.text.text p = some ch := by
    rw [ht, ← ha, List.append_assoc]
    exact charAt_append a ch b
  rcases hblank with hch | hch
  · rw [hchar, Option.some.injEq] at hch
    exact hspace (by rw [hch])
  · rw [hchar, Option.some.injEq] at hch
    exact htab (by rw [hch])

/-- Graphemes can be parted at a boundary between them. -/
theorem Plain.split (h : Plain g c s p q widths)
    (hout : Outside p s.elementRanges) (hn : g.isBoundary s.text.text n = true) (hp : p ≤ n)
    (hq : n ≤ q) :
    ∃ front back, Plain g c s p n front ∧ Plain g c s n q back ∧ widths = front ++ back ∧
      Outside n s.elementRanges := by
  induction h with
  | nil k =>
    obtain rfl := le_antisymm hq hp
    exact ⟨[], [], .nil _, .nil _, rfl, hout⟩
  | @grapheme p next q m widths hm hspace htab hnext hbound hrest ih =>
    rcases eq_or_lt_of_le hp with rfl | hlt
    · exact ⟨[], _, .nil _, .grapheme hm hspace htab hnext hbound hrest, rfl, hout⟩
    · have hge : next ≤ n := by
        by_contra hcontra
        rw [hm.inside n hlt (by omega)] at hn
        cases hn
      obtain ⟨front, back, hfront, hback, rfl, hn'⟩ := ih hnext hge hq
      exact ⟨_ :: front, back, .grapheme hm hspace htab hnext hbound hfront, hback, rfl, hn'⟩

theorem Plain.head (h : Plain g c s p q widths) (hlt : p < q) :
    ∃ next m, GraphemeAt g s p next m ∧ m ≠ [' '] ∧ m ≠ ['\t'] := by
  cases h with
  | nil => exact absurd hlt (lt_irrefl _)
  | grapheme hm hspace htab _ _ _ => exact ⟨_, _, hm, hspace, htab⟩

theorem eq_of_byteLen {u v t : Text} (hu : u <+: t) (hv : v <+: t)
    (h : byteLen u = byteLen v) : u = v := by
  obtain ⟨w, rfl⟩ := prefix_of_byteLen hu hv h.le
  rw [byteLen_append] at h
  have hw : w = [] := by
    by_contra hne
    have := byteLen_pos hne
    omega
  rw [hw, List.append_nil]

/-- A part of a text goes on behind a shorter one from the same offset. -/
theorem getBytes_split {t first : Text} {next : ℕ} (hm : getBytes t p q = some m)
    (hfirst : getBytes t p next = some first) (hle : next ≤ q) :
    ∃ rest, m = first ++ rest ∧ getBytes t next q = some rest := by
  obtain ⟨a, b, ht, ha, hab⟩ := getBytes_eq_some hm
  obtain ⟨a', b', ht', ha', hab'⟩ := getBytes_eq_some hfirst
  have haa : a = a' := by
    have hpre : a <+: t := ⟨m ++ b, by rw [ht, List.append_assoc]⟩
    have hpre' : a' <+: t := ⟨first ++ b', by rw [ht', List.append_assoc]⟩
    exact eq_of_byteLen hpre hpre' (ha.trans ha'.symm)
  subst haa
  obtain ⟨rest, hrest⟩ := prefix_of_byteLen ⟨b', ht'.symm⟩ ⟨b, ht.symm⟩
    (by rw [byteLen_append, byteLen_append]; omega)
  rw [List.append_assoc] at hrest
  have hrest := List.append_cancel_left hrest
  refine ⟨rest, hrest.symm, ?_⟩
  have := getBytes_append (a ++ first) rest b
  rw [byteLen_append, hab', List.append_assoc a, hrest, ← ht] at this
  rw [← hrest, byteLen_append] at hab
  rwa [show next + byteLen rest = q by omega] at this

include hlocal hset in
/-- Graphemes without a blank hold no tab, and are as wide as the text they make. -/
theorem Plain.strWidth (hadd : c.Additive g)
    (h : Plain g c s p q widths) (hp : g.isBoundary s.text.text p = true)
    (hout : Outside p s.elementRanges) (hm : getBytes s.text.text p q = some m) :
    '\t' ∉ m ∧ c.strWidth m = widths.sum := by
  induction h generalizing m with
  | nil =>
    obtain ⟨a, b, -, ha, hab⟩ := getBytes_eq_some hm
    have hnil : m = [] := by
      by_contra hne
      have := byteLen_pos hne
      omega
    subst hnil
    exact ⟨List.not_mem_nil, hadd.nil⟩
  | @grapheme p next q first widths hfirst hspace htab hnext hbound hrest ih =>
    obtain ⟨rest, rfl, hrestBytes⟩ := getBytes_split hm hfirst.bytes hrest.le
    obtain ⟨hrestTab, hrestWidth⟩ := ih hbound hnext hrestBytes
    obtain ⟨a, b, ht, ha, hab⟩ := getBytes_eq_some hm
    have hp' := hp
    rw [ht, ← ha] at hp'
    have hfirstTab : '\t' ∉ first := by
      intro hmem
      obtain ⟨x, y, rfl⟩ := List.append_of_mem hmem
      have htext : s.text.text = (a ++ x) ++ '\t' :: (y ++ rest ++ b) := by
        rw [ht]
        simp
      by_cases hx : x = []
      · refine hfirst.not_blankAt hset hout hspace htab (.inr ?_)
        rw [htext, ← ha, hx, List.append_nil]
        exact charAt_append a '\t' _
      · -- a tab inside the grapheme would begin another one
        have hinside := hfirst.inside (byteLen (a ++ x))
          (by have := byteLen_pos hx; rw [byteLen_append]; omega)
          (by
            have := hfirst.next_eq
            rw [byteLen_append, byteLen_cons] at this
            have := Char.utf8Size_pos '\t'
            rw [byteLen_append]
            omega)
        rw [htext, hlocal.beforeTab] at hinside
        cases hinside
    refine ⟨?_, ?_⟩
    · rw [List.mem_append, not_or]
      exact ⟨hfirstTab, hrestTab⟩
    · have hcut : g.isBoundary (first ++ rest) (byteLen first) = true := by
        by_cases hnil : rest = []
        · rw [hnil, List.append_nil]
          exact g.last first
        · have := byteLen_pos hnil
          rw [isBoundary_part hlocal hp' (by rw [byteLen_append]; omega), ← ht, ha,
            ← hfirst.next_eq.1]
          exact hbound
      rw [hadd.append first rest hcut, hrestWidth, List.sum_cons, graphemeDisplayWidth,
        if_neg htab]

include hlocal hset in
/-- What is shown of graphemes without a blank is as wide as they are. -/
theorem Plain.plainDisplayWidth (hadd : c.Additive g)
    (h : Plain g c s p q widths) (hp : g.isBoundary s.text.text p = true)
    (hout : Outside p s.elementRanges) :
    s.plainDisplayWidth g c (textSlice s.text.text p q) = widths.sum := by
  obtain ⟨m, hm⟩ : ∃ m, getBytes s.text.text p q = some m := by
    clear hlocal hset hadd
    induction h with
    | nil n =>
      obtain ⟨u, v, hsplit⟩ := g.char _ _ hp
      obtain ⟨ht, hu⟩ := splitBytes_eq_some_iff.mp hsplit
      have := getBytes_append u [] v
      rw [List.append_nil, ← ht, byteLen_nil, Nat.add_zero, hu] at this
      exact ⟨[], this⟩
    | @grapheme p next q first widths hfirst _ _ hnext hbound _ ih =>
      obtain ⟨rest, hrest⟩ := ih hbound hnext
      obtain ⟨a, b, ht, ha, hab⟩ := getBytes_eq_some hfirst.bytes
      obtain ⟨a', b', ht', ha', hab'⟩ := getBytes_eq_some hrest
      have hpre : a ++ first <+: s.text.text := ⟨b, ht.symm⟩
      have hpre' : a' <+: s.text.text := ⟨rest ++ b', by rw [ht', List.append_assoc]⟩
      obtain rfl := eq_of_byteLen hpre hpre' (by rw [byteLen_append]; omega)
      have := getBytes_append a (first ++ rest) b'
      rw [byteLen_append, ← Nat.add_assoc, hab, ← ha', hab', ha, ← List.append_assoc, ← ht']
        at this
      exact ⟨_, this⟩
  obtain ⟨htab, hwidth⟩ := h.strWidth hlocal hset hadd hp hout hm
  rw [textSlice, hm, Option.getD_some, TextArea.plainDisplayWidth, if_pos (.inr htab), hwidth]

include hlocal hset in
/-- What is shown of a range of graphemes without a blank is as wide as they are. -/
theorem Plain.displayWidthFrom (hadd : c.Additive g)
    (h : Plain g c s p q widths) (hp : g.isBoundary s.text.text p = true)
    (hout : Outside p s.elementRanges) (hlt : p < q) {elements : List (TextElement Line)}
    (hmem : ∀ e ∈ elements, e ∈ s.elements) :
    s.displayWidthFrom g c q elements p = widths.sum := by
  induction elements generalizing p widths with
  | nil =>
    rw [TextArea.displayWidthFrom, if_pos hlt, h.plainDisplayWidth hlocal hset hadd hp hout]
  | cons e elements ih =>
    have he := hmem e List.mem_cons_self
    have hrest := fun e he => hmem e (List.mem_cons_of_mem _ he)
    rw [TextArea.displayWidthFrom]
    split
    · exact h.plainDisplayWidth hlocal hset hadd hp hout
    split
    · exact ih h hp hout hlt hrest
    rename_i hbefore hafter
    rw [not_le] at hbefore hafter
    have hpe : p < e.range.start := by
      by_contra hcontra
      obtain ⟨next, m, hm, -⟩ := h.head hlt
      exact not_in_element hout hm.noElement e he ⟨by omega, hafter⟩
    obtain ⟨front, back, hfront, hback, rfl, hout'⟩ :=
      h.split hout (hset.aligned e he).1 hpe.le hbefore.le
    obtain ⟨next, m, hm, -⟩ := hback.head hbefore
    have hempty : e.range.stop = e.range.start :=
      le_antisymm (hm.noElement e he rfl) (hset.ordered e he)
    have hmin : min e.range.start q = e.range.start := min_eq_left hbefore.le
    dsimp only
    rw [if_pos hpe, hmin, if_pos hpe, if_neg (by omega), max_self, hempty, hmin,
      if_neg (lt_irrefl _), hfront.plainDisplayWidth hlocal hset hadd hp hout,
      ih hback (hset.aligned e he).1 hout' hbefore hrest, List.sum_append]

end Reading

/-! ### The rows -/

section Rows

variable (hlocal : g.Local) (hset : WellSet g s)

variable (g c s) in
/-- What holds in every round of the wrapping of a well-set line: the rows so far are right, and the
row that is begun is read in front of its last opportunity to break and behind it. -/
structure Fitting (width stop : ℕ) (st : WrapState) : Prop where
  rows : ∀ r ∈ st.rows, RowOk g c s width r
  start : Outside st.lineStart s.elementRanges ∧ g.isBoundary s.text.text st.lineStart = true
  pos : IsEdge g s st.pos ∧ (st.pos < stop → g.isBoundary s.text.text st.pos = true)
  breakAt : st.pos < stop → Outside (st.lastBreakPos.getD st.pos) s.elementRanges ∧
    g.isBoundary s.text.text (st.lastBreakPos.getD st.pos) = true
  widths : ∃ front back,
    Tokens g c s st.lineStart (st.lastBreakPos.getD st.pos) front ∧
      Tokens g c s (st.lastBreakPos.getD st.pos) st.pos back ∧
      (st.pos < stop → Plain g c s (st.lastBreakPos.getD st.pos) st.pos back) ∧
      st.displayW = (front ++ back).sum ∧ Narrow width (front ++ back)

namespace Fitting

variable {width start stop : ℕ} {st : WrapState}

/-- A row whose last opportunity to break is where it is. -/
theorem of_front {rows : List ByteRange} {lineStart pos displayW : ℕ} {lastBreak : Option ℕ}
    (hrows : ∀ r ∈ rows, RowOk g c s width r)
    (hstart : Outside lineStart s.elementRanges ∧ g.isBoundary s.text.text lineStart = true)
    (hpos : IsEdge g s pos) (hbound : pos < stop → g.isBoundary s.text.text pos = true)
    (hlast : lastBreak.getD pos = pos) {widths : List ℕ}
    (htokens : Tokens g c s lineStart pos widths) (hsum : displayW = widths.sum)
    (hnarrow : Narrow width widths) :
    Fitting g c s width stop ⟨rows, lineStart, pos, displayW, lastBreak⟩ := by
  refine ⟨hrows, hstart, ⟨hpos, hbound⟩, fun hlt => ?_, widths, [], ?_, ?_, fun _ => ?_, ?_, ?_⟩
  · rw [hlast]
    exact ⟨hpos.1, hbound hlt⟩
  · rw [hlast]
    exact htokens
  · rw [hlast]
    exact .nil pos
  · rw [hlast]
    exact .nil pos
  · rw [List.append_nil]
    exact hsum
  · rw [List.append_nil]
    exact hnarrow

include hset in
/-- No blank is skipped where a row is broken. -/
theorem nextLineStart_eq (h : Fitting g c s width stop st)
    (hwrap : Wrapping s start stop st) (hlt : st.pos < stop) (hwidth : 0 < st.displayW) :
    s.nextLineStart st = st.lastBreakPos.getD st.pos := by
  obtain ⟨front, back, -, -, hplain, -⟩ := h.widths
  have hle := (hwrap.breakAt_bounds hwidth).2
  unfold nextLineStart
  dsimp only
  rcases eq_or_lt_of_le hle with heq | hbefore
  · rw [heq, Nat.sub_self]
    rfl
  · obtain ⟨next, m, hm, hspace, htab⟩ := (hplain hlt).head hbefore
    exact skipBlanks_of_not_blankAt (hm.not_blankAt hset (h.breakAt hlt).1 hspace htab) _

/-- The row that is broken is right. -/
theorem brokenRows (h : Fitting g c s width stop st) (hlt : st.pos < stop) :
    ∀ r ∈ brokenRows st, RowOk g c s width r := by
  obtain ⟨front, back, hfront, -, -, -, hnarrow⟩ := h.widths
  intro r hr
  rcases List.mem_append.1 hr with hr | hr
  · exact h.rows r hr
  · rw [List.mem_singleton.1 hr]
    exact ⟨⟨h.start.1, .inl h.start.2⟩, ⟨(h.breakAt hlt).1, .inl (h.breakAt hlt).2⟩, front, hfront,
      hnarrow.append_left⟩

include hlocal hset in
/-- Each round of the wrapping of a well-set line keeps what holds. -/
theorem round (hadd : c.Additive g) (h : Fitting g c s width stop st)
    (hwrap : Wrapping s start stop st) (hstop : IsEdge g s stop) {next : WrapState}
    (hround : s.wrapRound g c width stop st = .yield next) : Fitting g c s width stop next := by
  obtain ⟨front, back, hfront, hback, hplain, hsum, hnarrow⟩ := h.widths
  unfold wrapRound at hround
  split at hround
  · cases hround
  rename_i hlt
  rw [not_le] at hlt
  have hbreakEdge := h.breakAt hlt
  split at hround
  · -- an element begins here
    rename_i e hfind
    have hin := List.find?_some hfind
    simp only [decide_eq_true_eq] at hin
    have he := List.mem_of_find?_eq_some hfind
    have hend : min e.range.stop stop = e.range.stop := by
      rcases outside_iff.1 hstop.1 e he with hbefore | hafter
      · omega
      · exact min_eq_left hafter
    obtain ⟨hout, hbound⟩ := edge_of_element hset he
    dsimp only at hround
    rw [hend] at hround
    split at hround
    · rename_i hbreak
      cases hround
      rw [h.nextLineStart_eq hset hwrap hlt hbreak.1]
      exact of_front (h.brokenRows hlt) hbreakEdge ⟨hbreakEdge.1, .inl hbreakEdge.2⟩
        (fun _ => hbreakEdge.2) rfl (.nil _) rfl (.inl (Nat.zero_le _))
    · rename_i hfits
      cases hround
      refine of_front h.rows h.start ⟨hout, .inl hbound⟩ (fun _ => hbound) rfl
        ((hfront.append hback).append ?_) ?_
        (narrow_concat (w := s.elementDisplayWidth g c e e.range.stop) ?_)
      · rw [hin.1]
        exact .element he hin.2 (.nil _)
      · rw [List.sum_append, List.sum_singleton, hsum]
      · rw [← hsum]
        omega
  · -- a grapheme begins here
    rename_i hfind
    have hnone : NoElementAt s st.pos := by
      intro e he hstart
      have := List.find?_eq_none.1 hfind e he
      simp only [decide_eq_true_eq] at this
      omega
    split at hround
    · cases hround
    · rename_i m hm
      obtain ⟨hgrapheme, hle, hedge, hbound⟩ := graphemeAt_of_head? hset hlocal
        (h.pos.2 hlt) h.pos.1.1 hnone hstop hm
      have hone : Tokens g c s st.pos (st.pos + byteLen m) [s.graphemeDisplayWidth c m] :=
        .grapheme hgrapheme hedge (.nil _)
      dsimp only at hround
      split at hround
      · rename_i hbreak
        rw [h.nextLineStart_eq hset hwrap hlt hbreak.2] at hround
        split at hround
        · rename_i hhere
          cases hround
          refine of_front (h.brokenRows hlt) hbreakEdge hedge hbound rfl ?_
            (List.sum_singleton).symm (.inr (List.length_filter_le _ _))
          rw [hhere]
          exact hone
        · rename_i hbehind
          cases hround
          have hbefore : st.lastBreakPos.getD st.pos < st.pos :=
            lt_of_le_of_ne (hwrap.breakAt_bounds hbreak.2).2 hbehind
          refine of_front (h.brokenRows hlt) hbreakEdge h.pos.1 h.pos.2 rfl hback ?_
            hnarrow.append_right
          rw [displayWidthOfRange, if_neg (by omega)]
          exact (hplain hlt).displayWidthFrom hlocal hset hadd hbreakEdge.2 hbreakEdge.1 hbefore
            fun e he => he
      · rename_i hfits
        have hmore : Narrow width ((front ++ back) ++ [s.graphemeDisplayWidth c m]) := by
          refine narrow_concat ?_
          rw [← hsum]
          omega
        have hsum' : st.displayW + s.graphemeDisplayWidth c m =
            ((front ++ back) ++ [s.graphemeDisplayWidth c m]).sum := by
          rw [List.sum_append, List.sum_singleton, hsum]
        cases hround
        split
        · exact of_front h.rows h.start hedge hbound rfl ((hfront.append hback).append hone)
            hsum' hmore
        · rename_i hblank
          rw [not_or] at hblank
          cases hlast : st.lastBreakPos with
          | none =>
            exact of_front h.rows h.start hedge hbound rfl ((hfront.append hback).append hone)
              hsum' hmore
          | some b =>
            rw [hlast] at hfront hback hplain hbreakEdge
            rw [List.append_assoc] at hsum' hmore
            exact
              { rows := h.rows
                start := h.start
                pos := ⟨hedge, hbound⟩
                breakAt := fun _ => hbreakEdge
                widths := ⟨front, back ++ [s.graphemeDisplayWidth c m], hfront,
                  hback.append hone,
                  fun hnext => (hplain hlt).append (.grapheme hgrapheme hblank.1 hblank.2 hedge.1
                    (hbound hnext) (.nil _)), hsum', hmore⟩ }

end Fitting

include hset in
theorem edge_of_lineEnd {stop : ℕ} (hle : stop ≤ s.len)
    (hnewline : stop < s.len → LogicalNewline s stop) : IsEdge g s stop := by
  rcases eq_or_lt_of_le hle with rfl | hlt
  · refine ⟨outside_iff.2 fun e he => .inr ?_, .inl (g.last _)⟩
    exact g.le_of_isBoundary (hset.aligned e he).2
  · obtain ⟨hchar, hout⟩ := hnewline hlt
    refine ⟨outside_iff.2 fun e he => ?_, ?_⟩
    · have := hout e he
      omega
    · obtain ⟨u, v, ht, rfl⟩ := exists_of_charAt hchar
      by_cases hreturn : u.getLast? = some '\r'
      · right
        obtain ⟨w, rfl⟩ : ∃ w, u = w ++ ['\r'] := by
          obtain ⟨w, hw⟩ := List.getLast?_eq_some_iff.1 hreturn
          exact ⟨w, hw⟩
        refine ⟨w, v, by rw [ht, List.append_assoc]; rfl, ?_⟩
        rw [byteLen_append]
        rfl
      · left
        rw [ht]
        exact g.beforeLineFeed u v hreturn

theorem edge_of_lineStart {stop : ℕ} (hnewline : LogicalNewline s stop) :
    Outside (stop + 1) s.elementRanges ∧ g.isBoundary s.text.text (stop + 1) = true := by
  obtain ⟨hchar, hout⟩ := hnewline
  obtain ⟨u, v, ht, rfl⟩ := exists_of_charAt hchar
  refine ⟨outside_iff.2 fun e he => ?_, ?_⟩
  · have := hout e he
    omega
  · rw [ht]
    exact g.behindLineFeed u v

include hlocal hset in
/-- The rows of a well-set line are right. -/
theorem rowOk_of_greedyWrapSegment (hadd : c.Additive g) {width start stop : ℕ}
    {rows : List ByteRange}
    (hstart : Outside start s.elementRanges ∧ g.isBoundary s.text.text start = true)
    (hle : start ≤ stop) (hstop : IsEdge g s stop)
    (hrows : s.greedyWrapSegment g c start stop width = some rows) :
    ∀ r ∈ rows, RowOk g c s width r := by
  rcases eq_or_lt_of_le hle with rfl | hlt
  · rw [greedyWrapSegment, if_pos le_rfl, Option.some.injEq] at hrows
    subst hrows
    intro r hr
    rw [List.mem_singleton.1 hr]
    exact ⟨⟨hstart.1, .inl hstart.2⟩, ⟨hstart.1, .inl hstart.2⟩, [], .nil start,
      .inl (Nat.zero_le _)⟩
  · obtain ⟨st, hst, hwrap, hfit, hdone⟩ := s.exists_wrapped g c width hlt
      (Fitting g c s width stop)
      (fun st next hwrap hfit hround => hfit.round hlocal hset hadd hwrap hstop hround)
      (Fitting.of_front (by simp) hstart ⟨hstart.1, .inl hstart.2⟩ (fun _ => hstart.2) rfl
        (.nil start) rfl (.inl (Nat.zero_le _)))
    have hend : st.pos = stop := by
      by_contra hne
      have hbefore : st.pos < stop := lt_of_le_of_ne hwrap.pos_le hne
      have hread := head?_graphemes_ne_none hbefore (hfit.pos.2 hbefore) hstop
      unfold wrapRound at hdone
      rw [if_neg (not_le.2 hbefore)] at hdone
      split at hdone
      · dsimp only at hdone
        split at hdone <;> cases hdone
      · split at hdone
        · rename_i hnone
          exact hread hnone
        · dsimp only at hdone
          split at hdone
          · split at hdone <;> cases hdone
          · cases hdone
    rw [hst, Option.some.injEq] at hrows
    obtain ⟨front, back, hfront, hback, -, -, hnarrow⟩ := hfit.widths
    rw [hend] at hback hfront
    subst hrows
    intro r hr
    rcases List.mem_append.1 hr with hr | hr
    · exact hfit.rows r hr
    · rw [List.mem_singleton.1 hr]
      exact ⟨⟨hfit.start.1, .inl hfit.start.2⟩, hstop, _, hfront.append hback, hnarrow⟩

end Rows

/-- **Wrapping around elements**: the wrapping ends, and its rows are one behind the other, in order
and apart, with every byte in a row but the line breaks between the lines and the blanks skipped
where a row is broken. Of a well-set text no row begins or ends inside an element or a grapheme other
than a line break of two characters, and each is as wide as it may be or holds one element or grapheme
at most that has a width. -/
theorem elementAwareWrapRanges_spec (hlocal : g.Local) (hadd : c.Additive g) (s : TextArea Line)
    {width : ℕ} (hwidth : 1 ≤ width) :
    ∃ rows, s.elementAwareWrapRanges g c width = some rows ∧ Rows s 0 rows ∧
      (rows.Pairwise fun a b => a.stop ≤ b.start) ∧
      (∀ r ∈ rows, r.start ≤ r.stop ∧ r.stop ≤ s.len) ∧
      (∀ n, n < s.len → (∃ r ∈ rows, r.start ≤ n ∧ n < r.stop) ∨ LogicalNewline s n ∨
        blankAt s.text.text n) ∧
      (WellSet g s → ∀ r ∈ rows, RowOk g c s width r) := by
  have hmax : max width 1 = width := max_eq_left hwidth
  unfold elementAwareWrapRanges
  rw [hmax]
  obtain ⟨rows, hrows, hchain, -⟩ := s.wrapLines_spec g c width (fun _ => True) (fun _ => True)
    (fun _ _ _ _ _ _ _ _ => ⟨fun _ _ => trivial, fun _ => trivial⟩) trivial (Nat.zero_le _)
    (show s.len - 0 < s.len + 1 by omega)
  refine ⟨rows, hrows, hchain, hchain.pairwise, hchain.bounds.2,
    fun n hn => hchain.covers (Nat.zero_le n) hn, fun hset => ?_⟩
  obtain ⟨rows', hrows', -, hok⟩ := s.wrapLines_spec g c width
    (fun n => Outside n s.elementRanges ∧ g.isBoundary s.text.text n = true) (RowOk g c s width)
    (fun start stop rows hstart hle hlast hnewline hsegment =>
      ⟨rowOk_of_greedyWrapSegment hlocal hset hadd hstart hle
        (edge_of_lineEnd hset hlast hnewline) hsegment,
        fun hlt => edge_of_lineStart (hnewline hlt)⟩)
    ⟨outside_iff.2 fun e _ => .inl (Nat.zero_le _), g.zero _⟩ (Nat.zero_le _)
    (show s.len - 0 < s.len + 1 by omega)
  rw [hrows, Option.some.injEq] at hrows'
  rw [hrows']
  exact hok

end TextArea

/-! ### Texts wrapped at marks -/

theorem marks_local : marks.toGraphemes.Local where
  before u v n hn := by
    change endsAt (u ++ v) n = endsAt u n
    unfold endsAt
    cases hsplit : splitBytes n u with
    | none =>
      cases hsplit' : splitBytes n (u ++ v) with
      | none => rfl
      | some cut =>
        obtain ⟨a, b⟩ := cut
        obtain ⟨hab, ha⟩ := splitBytes_eq_some_iff.mp hsplit'
        obtain ⟨w, rfl⟩ := prefix_of_byteLen ⟨b, hab.symm⟩ ⟨v, rfl⟩ (by omega)
        rw [← ha, splitBytes_append] at hsplit
        cases hsplit
    | some cut =>
      obtain ⟨a, b⟩ := cut
      obtain ⟨rfl, rfl⟩ := splitBytes_eq_some_iff.mp hsplit
      rw [List.append_assoc, splitBytes_append]
      cases b with
      | nil => simp at hn
      | cons ch b => rfl
  behind u v n h := by
    change endsAt v n = endsAt (u ++ v) (byteLen u + n)
    change endsAt (u ++ v) (byteLen u) = true at h
    cases hsplit : splitBytes n v with
    | none =>
      have hnone : splitBytes (byteLen u + n) (u ++ v) = none := by
        cases hsplit' : splitBytes (byteLen u + n) (u ++ v) with
        | none => rfl
        | some cut =>
          obtain ⟨x, y⟩ := cut
          obtain ⟨hxy, hx⟩ := splitBytes_eq_some_iff.mp hsplit'
          obtain ⟨w, rfl⟩ := prefix_of_byteLen ⟨v, rfl⟩ ⟨y, hxy.symm⟩ (by omega)
          rw [List.append_assoc] at hxy
          rw [byteLen_append] at hx
          rw [List.append_cancel_left hxy, ← Nat.add_left_cancel hx, splitBytes_append] at hsplit
          cases hsplit
      rw [endsAt, endsAt, hsplit, hnone]
    | some cut =>
      obtain ⟨a, b⟩ := cut
      obtain ⟨rfl, rfl⟩ := splitBytes_eq_some_iff.mp hsplit
      rw [← List.append_assoc, ← byteLen_append, endsAt_append, endsAt_append]
      cases a using List.reverseRecOn with
      | nil =>
        rw [endsAt_append] at h
        rw [List.append_nil]
        exact h.symm
      | append_singleton a ch => rw [← List.append_assoc, List.getLast?_concat, List.getLast?_concat]
  beforeTab u v := by
    change endsAt (u ++ '\t' :: v) (byteLen u) = true
    rw [endsAt_append, List.head?_cons]
    cases u.getLast? with
    | none => rfl
    | some ch =>
      rw [endsBetween, if_neg (by simp)]
      split <;> rfl

/-- Every character is one column wide, a mark none, and a line is shown as its spans. -/
def markColumns : Columns (List Text) where
  strWidth t := (t.filter fun ch => !isMark ch).length
  spans := id

theorem markColumns_additive : markColumns.Additive marks.toGraphemes where
  nil := rfl
  append u v _ := by simp [markColumns]

/-- A text area with a text and elements in it. -/
def areaOf (text : Text) (elements : List (TextElement (List Text))) : TextArea (List Text) :=
  { TextArea.new with text := ⟨text, 0, 0, 0⟩, elements := elements }

/-- An element that is shown as a line. -/
def chip (start stop : ℕ) (display : List Text) : TextElement (List Text) :=
  ⟨0, ⟨start, stop⟩, 0, some display⟩

theorem lt_of_blankAt {t : Text} {n : ℕ} (h : blankAt t n) : n < byteLen t := by
  rcases h with h | h <;> obtain ⟨u, v, rfl, rfl⟩ := exists_of_charAt h <;>
    rw [byteLen_append, byteLen_cons] <;> have := Char.utf8Size_pos ' ' <;>
    have := Char.utf8Size_pos '\t' <;> omega

open TextArea in
/-- A chip is moved to the next row, behind the blank in front of it. -/
theorem elementAwareWrapRanges_chip :
    ∃ rows, (areaOf "ab cd".toList [chip 3 5 ["wide".toList]]).elementAwareWrapRanges
        marks.toGraphemes markColumns 5 = some rows ∧ rows = [⟨0, 3⟩, ⟨3, 5⟩] ∧
      ∀ r ∈ rows, RowOk marks.toGraphemes markColumns
        (areaOf "ab cd".toList [chip 3 5 ["wide".toList]]) 5 r := by
  obtain ⟨rows, hrows, -, -, -, -, hok⟩ := elementAwareWrapRanges_spec marks_local
    markColumns_additive (areaOf "ab cd".toList [chip 3 5 ["wide".toList]])
    (show 1 ≤ 5 by decide)
  have hvalue : (areaOf "ab cd".toList [chip 3 5 ["wide".toList]]).elementAwareWrapRanges
      marks.toGraphemes markColumns 5 = some [⟨0, 3⟩, ⟨3, 5⟩] := by decide +kernel
  refine ⟨rows, hrows, ?_, hok ?_⟩
  · rw [hrows, Option.some.injEq] at hvalue
    exact hvalue
  · exact
      { sorted := List.pairwise_singleton _ _
        ordered := by decide
        aligned := by decide +kernel
        blanks := by
          intro n hn
          have hlt : n < 5 := lt_of_blankAt hn
          have hall : ∀ n < 5, blankAt "ab cd".toList n →
              marks.isBoundary "ab cd".toList (n + 1) = true := by decide +kernel
          exact fun _ => hall n hlt hn }

theorem TextArea.Tokens.cases_element {Line : Type} {g : Graphemes} {c : Columns Line}
    {s : TextArea Line} {p q : ℕ} {widths : List ℕ} (h : Tokens g c s p q widths) (hlt : p < q)
    {e : TextElement Line} (he : e ∈ s.elements) (hp : e.range.start = p)
    (hpos : e.range.start < e.range.stop)
    (hone : ∀ e' ∈ s.elements, e'.range.start = p → e' = e) :
    ∃ rest, widths = s.elementDisplayWidth g c e e.range.stop :: rest ∧
      Tokens g c s e.range.stop q rest := by
  cases h with
  | nil => exact absurd hlt (lt_irrefl _)
  | element he' _ hrest =>
    rw [hone _ he' rfl] at hrest ⊢
    exact ⟨_, rfl, hrest⟩
  | grapheme hm _ _ =>
    have := hm.noElement e he hp
    omega

/-- A row that begins and ends between elements and graphemes, and fits or is one of them. -/
structure StrictRow (s : TextArea (List Text)) (width : ℕ) (r : ByteRange) : Prop where
  start : Outside r.start s.elementRanges ∧ marks.isBoundary s.text.text r.start = true
  stop : Outside r.stop s.elementRanges ∧ marks.isBoundary s.text.text r.stop = true
  narrow : ∃ widths, TextArea.Tokens marks.toGraphemes markColumns s r.start r.stop widths ∧
    (widths.sum ≤ width ∨ widths.length ≤ 1)

open TextArea in
/-- Behind a soft break the blank of a combining grapheme is skipped, the row of a line that ends in
a line break of two characters parts it, an element can end inside a grapheme, and an element that is
too wide can stand behind one without a width. -/
theorem not_strictRows :
    (∃ rows, (areaOf "x  \u0301yyyy".toList []).elementAwareWrapRanges marks.toGraphemes
        markColumns 4 = some rows ∧
      ¬ ∀ r ∈ rows, StrictRow (areaOf "x  \u0301yyyy".toList []) 4 r) ∧
    (∃ rows, (areaOf "a\r\nb".toList []).elementAwareWrapRanges marks.toGraphemes
        markColumns 4 = some rows ∧ ¬ ∀ r ∈ rows, StrictRow (areaOf "a\r\nb".toList []) 4 r) ∧
    (∃ rows, (areaOf "a\u0301bcd".toList [chip 0 1 ["P".toList]]).elementAwareWrapRanges
        marks.toGraphemes markColumns 2 = some rows ∧
      ¬ ∀ r ∈ rows, StrictRow (areaOf "a\u0301bcd".toList [chip 0 1 ["P".toList]]) 2 r) ∧
    (∃ rows, (areaOf "ab".toList [chip 0 1 [], chip 1 2 ["wide".toList]]).elementAwareWrapRanges
        marks.toGraphemes markColumns 2 = some rows ∧
      ¬ ∀ r ∈ rows, StrictRow (areaOf "ab".toList [chip 0 1 [], chip 1 2 ["wide".toList]]) 2 r) := by
  refine ⟨⟨[⟨0, 2⟩, ⟨3, 9⟩], by decide +kernel, fun h => ?_⟩,
    ⟨[⟨0, 2⟩, ⟨3, 4⟩], by decide +kernel, fun h => ?_⟩,
    ⟨[⟨0, 1⟩, ⟨1, 5⟩, ⟨5, 6⟩], by decide +kernel, fun h => ?_⟩,
    ⟨[⟨0, 2⟩], by decide +kernel, fun h => ?_⟩⟩
  · exact absurd (h ⟨3, 9⟩ (by decide)).start.2 (by decide +kernel)
  · exact absurd (h ⟨0, 2⟩ (by decide)).stop.2 (by decide +kernel)
  · exact absurd (h ⟨0, 1⟩ (by decide)).stop.2 (by decide +kernel)
  · obtain ⟨widths, htokens, hnarrow⟩ := (h ⟨0, 2⟩ (by decide)).narrow
    obtain ⟨rest, rfl, hrest⟩ := htokens.cases_element (by decide) (e := chip 0 1 [])
      (by decide) rfl (by decide) (by decide)
    obtain ⟨rest', rfl, -⟩ := hrest.cases_element (by decide) (e := chip 1 2 ["wide".toList])
      (by decide) rfl (by decide) (by decide)
    have hzero : (areaOf "ab".toList [chip 0 1 [], chip 1 2 ["wide".toList]]).elementDisplayWidth
        marks.toGraphemes markColumns (chip 0 1 []) 1 = 0 := by decide
    have hwide : (areaOf "ab".toList [chip 0 1 [], chip 1 2 ["wide".toList]]).elementDisplayWidth
        marks.toGraphemes markColumns (chip 1 2 ["wide".toList]) 2 = 4 := by decide
    rcases hnarrow with hsum | hlen
    · rw [List.sum_cons, List.sum_cons] at hsum
      change _ + (TextArea.elementDisplayWidth _ _ _ (chip 1 2 ["wide".toList]) 2 + _) ≤ 2 at hsum
      omega
    · rw [List.length_cons, List.length_cons] at hlen
      omega

end Ezer.Textarea
