import Mathlib.Data.List.Sort

/-!
# Edits of a list

An edit replaces a range of a list. Edits whose ranges stand apart can be made
all at once: the list is copied, and every range is replaced where it is met.
Making such edits one by one from the last to the first is the same.
-/

namespace Ezer.Lib

/-- The replacement of the elements from `start` to before `stop`. -/
structure Edit (α : Type*) where
  start : ℕ
  stop : ℕ
  lines : List α

namespace Edit

variable {α β : Type*}

/-- Make one edit. -/
def apply (ls : List α) (e : Edit α) : List α :=
  ls.take e.start ++ e.lines ++ ls.drop e.stop

/-- Copy a list from a position on, with every edited range replaced. -/
def spliceFrom (ls : List α) : ℕ → List (Edit α) → List α
  | pos, [] => ls.drop pos
  | pos, e :: es => (ls.take e.start).drop pos ++ e.lines ++ spliceFrom ls e.stop es

/-- All edits of a list made at once. -/
def splice (ls : List α) (es : List (Edit α)) : List α := spliceFrom ls 0 es

/-- Edits from a position on, each one behind the one before it, up to an end. -/
def Ordered (stop : ℕ) : ℕ → List (Edit α) → Prop
  | pos, [] => pos ≤ stop
  | pos, e :: es => pos ≤ e.start ∧ e.start ≤ e.stop ∧ Ordered stop e.stop es

section Ordered

variable {ls : List α} {e : Edit α} {es fs : List (Edit α)} {pos pos' stop : ℕ}

theorem Ordered.le_stop (h : Ordered stop pos es) : pos ≤ stop := by
  induction es generalizing pos with
  | nil => exact h
  | cons e es ih => exact le_trans (le_trans h.1 h.2.1) (ih h.2.2)

/-- Edits are ordered when they stand apart, are ranges, and end in bounds. -/
theorem ordered_iff : Ordered stop pos es ↔
    pos ≤ stop ∧ (∀ e ∈ es, pos ≤ e.start ∧ e.start ≤ e.stop ∧ e.stop ≤ stop) ∧
      es.Pairwise fun a b => a.stop ≤ b.start := by
  induction es generalizing pos with
  | nil => simp [Ordered]
  | cons e es ih =>
    rw [Ordered, ih, List.forall_mem_cons, List.pairwise_cons]
    constructor
    · rintro ⟨hpos, hrange, hstop, hmem, hpairs⟩
      refine ⟨le_trans (le_trans hpos hrange) hstop, ⟨⟨hpos, hrange, hstop⟩, fun f hf => ?_⟩,
        fun f hf => (hmem f hf).1, hpairs⟩
      exact ⟨le_trans (le_trans hpos hrange) (hmem f hf).1, (hmem f hf).2⟩
    · rintro ⟨-, ⟨⟨hpos, hrange, hstop⟩, hmem⟩, hbefore, hpairs⟩
      exact ⟨hpos, hrange, hstop, fun f hf => ⟨hbefore f hf, (hmem f hf).2⟩, hpairs⟩

/-- Up to the first edit a list is copied. -/
theorem spliceFrom_eq_append (h : Ordered stop pos es) (hle : pos' ≤ pos) :
    spliceFrom ls pos' es = (ls.take pos).drop pos' ++ spliceFrom ls pos es := by
  have hcut (t : List α) : t.drop pos' = (t.take pos).drop pos' ++ t.drop pos := by
    conv_lhs => rw [← List.take_append_drop pos t, List.drop_append]
    have hdrop : pos' - (t.take pos).length = 0 ∨ t.drop pos = [] := by
      rw [List.length_take, List.drop_eq_nil_iff]
      omega
    rcases hdrop with hdrop | hdrop
    · rw [hdrop, List.drop_zero]
    · rw [hdrop, List.drop_nil]
  cases es with
  | nil => exact hcut ls
  | cons e es =>
    have htake : (ls.take e.start).take pos = ls.take pos := by
      rw [List.take_take, min_eq_left h.1]
    rw [spliceFrom, spliceFrom, hcut (ls.take e.start), htake]
    simp only [List.append_assoc]

/-- Ordered edits made from the last to the first are all of them made at once. -/
theorem foldr_apply_eq_spliceFrom (h : Ordered ls.length pos es) :
    es.foldr (fun e ls => apply ls e) ls = ls.take pos ++ spliceFrom ls pos es := by
  induction es generalizing pos with
  | nil => exact (List.take_append_drop pos ls).symm
  | cons e es ih =>
    have hstop := h.2.2.le_stop
    have hlength : (ls.take e.stop).length = e.stop := List.length_take_of_le hstop
    have hstart : e.start ≤ e.stop := h.2.1
    rw [List.foldr_cons, ih h.2.2, apply, List.take_append_of_le_length (by omega),
      List.take_take, min_eq_left hstart, List.drop_append_of_le_length (by omega),
      List.drop_eq_nil_of_le hlength.le, List.nil_append, spliceFrom]
    have hcut := List.take_append_drop pos (ls.take e.start)
    rw [List.take_take, min_eq_left h.1] at hcut
    rw [← List.append_assoc, ← List.append_assoc, hcut]

/-- Ordered edits made from the last to the first are all of them made at once. -/
theorem foldr_apply_eq_splice (h : Ordered ls.length 0 es) :
    es.foldr (fun e ls => apply ls e) ls = splice ls es := by
  rw [foldr_apply_eq_spliceFrom h, List.take_zero, List.nil_append, splice]

end Ordered

/-- Two edits of which the first was asked for earlier stand apart: one ends before the other
starts, and where both start at one place the earlier one comes first. -/
def Apart (a b : Edit α) : Prop :=
  a.stop ≤ b.start ∨ b.stop ≤ a.start ∧ b.start < a.start

/-- Edits sorted by where they start; those that start at one place keep their order. -/
def sortByStart (es : List (Edit α)) : List (Edit α) :=
  es.insertionSort fun a b => a.start ≤ b.start

section SortByStart

variable {a b : Edit α} {es : List (Edit α)}

theorem pairwise_sortByStart (es : List (Edit α)) :
    (sortByStart es).Pairwise fun a b => a.start ≤ b.start := by
  have htotal : Std.Total fun a b : Edit α => a.start ≤ b.start :=
    ⟨fun a b => le_total a.start b.start⟩
  have htrans : IsTrans (Edit α) fun a b => a.start ≤ b.start :=
    ⟨fun _ _ _ hab hbc => le_trans hab hbc⟩
  exact List.pairwise_insertionSort _ es

/-- Among sorted edits that stand apart, one more that stands apart from each has its place. -/
theorem pairwise_orderedInsert (hrange : a.start ≤ a.stop)
    (hes : es.Pairwise fun b c => b.stop ≤ c.start)
    (hsorted : es.Pairwise fun b c => b.start ≤ c.start) (hapart : ∀ b ∈ es, Apart a b) :
    (es.orderedInsert (fun b c => b.start ≤ c.start) a).Pairwise
      fun b c => b.stop ≤ c.start := by
  induction es with
  | nil => exact List.pairwise_singleton _ _
  | cons b es ih =>
    rw [List.pairwise_cons] at hes hsorted
    rw [List.forall_mem_cons] at hapart
    by_cases hle : a.start ≤ b.start
    · rw [List.orderedInsert_cons, if_pos hle, List.pairwise_cons]
      refine ⟨fun c hc => ?_, List.pairwise_cons.mpr hes⟩
      have hstart : a.start ≤ c.start ∧ Apart a c := by
        rcases List.mem_cons.mp hc with rfl | hc
        · exact ⟨hle, hapart.1⟩
        · exact ⟨le_trans hle (hsorted.1 c hc), hapart.2 c hc⟩
      rcases hstart.2 with hbefore | ⟨-, hlt⟩
      · exact hbefore
      · exact absurd hlt (not_lt_of_ge hstart.1)
    · rw [List.orderedInsert_cons, if_neg hle, List.pairwise_cons]
      refine ⟨fun c hc => ?_, ih hes.2 hsorted.2 hapart.2⟩
      rcases List.mem_orderedInsert _ |>.mp hc with rfl | hc
      · rcases hapart.1 with hbefore | ⟨hbefore, -⟩
        · exact absurd (le_trans hrange hbefore) hle
        · exact hbefore
      · exact hes.1 c hc

/-- Edits that stand apart in the order they were asked for stand apart once sorted. -/
theorem pairwise_sortByStart_of_apart (hrange : ∀ e ∈ es, e.start ≤ e.stop)
    (hapart : es.Pairwise Apart) :
    (sortByStart es).Pairwise fun a b => a.stop ≤ b.start := by
  induction es with
  | nil => exact List.Pairwise.nil
  | cons a es ih =>
    rw [List.forall_mem_cons] at hrange
    rw [List.pairwise_cons] at hapart
    rw [sortByStart, List.insertionSort_cons]
    refine pairwise_orderedInsert hrange.1 (ih hrange.2 hapart.2) (pairwise_sortByStart es) ?_
    intro b hb
    exact hapart.1 b ((List.mem_insertionSort _).mp hb)

end SortByStart

/-- The edits that undo some edits of a list: where each of them stands in the edited list, and
the elements that it replaced. -/
def undosFrom (ls : List α) : ℕ → ℕ → List (Edit α) → List (Edit α)
  | _, _, [] => []
  | pos, off, e :: es =>
    let start := off + (e.start - pos)
    ⟨start, start + e.lines.length, (ls.take e.stop).drop e.start⟩ ::
      undosFrom ls e.stop (start + e.lines.length) es

/-- The edits that undo some edits of a list. -/
def undos (ls : List α) (es : List (Edit α)) : List (Edit α) := undosFrom ls 0 0 es

section Undo

variable {ls new : List α} {e : Edit α} {es : List (Edit α)} {pos off : ℕ}

theorem length_undosFrom (ls : List α) (pos off : ℕ) (es : List (Edit α)) :
    (undosFrom ls pos off es).length = es.length := by
  induction es generalizing pos off with
  | nil => rfl
  | cons e es ih => exact congrArg Nat.succ (ih _ _)

/-- What stands in an edited list in front of an edit, in its place, and behind it. -/
theorem cut_of_drop_eq (hstop : e.start ≤ ls.length)
    (hnew : new.drop off = spliceFrom ls pos (e :: es)) :
    (new.take (off + (e.start - pos))).drop off = (ls.take e.start).drop pos ∧
      (new.take (off + (e.start - pos) + e.lines.length)).drop (off + (e.start - pos)) = e.lines ∧
      new.drop (off + (e.start - pos) + e.lines.length) = spliceFrom ls e.stop es := by
  have hlength : ((ls.take e.start).drop pos).length = e.start - pos := by
    rw [List.length_drop, List.length_take_of_le hstop]
  rw [spliceFrom, List.append_assoc] at hnew
  have hrest : new.drop (off + (e.start - pos)) = e.lines ++ spliceFrom ls e.stop es := by
    rw [← List.drop_drop, hnew, List.drop_left' hlength]
  refine ⟨?_, ?_, ?_⟩
  · rw [List.drop_take, Nat.add_sub_cancel_left, hnew, List.take_left' hlength]
  · rw [List.drop_take, Nat.add_sub_cancel_left, hrest, List.take_left' rfl]
  · rw [← List.drop_drop, hrest, List.drop_left' rfl]

theorem ordered_undosFrom (h : Ordered ls.length pos es) (hat : off ≤ new.length)
    (hnew : new.drop off = spliceFrom ls pos es) :
    Ordered new.length off (undosFrom ls pos off es) := by
  induction es generalizing pos off with
  | nil => exact hat
  | cons e es ih =>
    obtain ⟨hstart, hrange, hrest⟩ := h
    obtain ⟨-, -, hbehind⟩ := cut_of_drop_eq (le_trans hrange hrest.le_stop) hnew
    refine ⟨Nat.le_add_right _ _, Nat.le_add_right _ _, ih hrest ?_ hbehind⟩
    have hlength : (new.drop off).length =
        e.start - pos + (e.lines.length + (spliceFrom ls e.stop es).length) := by
      rw [hnew, spliceFrom, List.append_assoc, List.length_append, List.length_append,
        List.length_drop, List.length_take_of_le (le_trans hrange hrest.le_stop)]
    rw [List.length_drop] at hlength
    show off + (e.start - pos) + e.lines.length ≤ new.length
    omega

/-- Undoing all edits of a list gives back what was edited. -/
theorem spliceFrom_undosFrom (h : Ordered ls.length pos es)
    (hnew : new.drop off = spliceFrom ls pos es) :
    spliceFrom new off (undosFrom ls pos off es) = ls.drop pos := by
  induction es generalizing pos off with
  | nil => exact hnew
  | cons e es ih =>
    obtain ⟨hstart, hrange, hrest⟩ := h
    obtain ⟨hbefore, -, hbehind⟩ := cut_of_drop_eq (le_trans hrange hrest.le_stop) hnew
    have hcut (m n : ℕ) (hle : m ≤ n) : (ls.take n).drop m ++ ls.drop n = ls.drop m :=
      (@spliceFrom_eq_append _ ls [] n m n le_rfl hle).symm
    rw [undosFrom, spliceFrom]
    dsimp only
    rw [hbefore, ih hrest hbehind, List.append_assoc, hcut _ _ hrange, hcut _ _ hstart]

/-- Undoing all edits of a list gives back the list. -/
theorem splice_undos (h : Ordered ls.length 0 es) : splice (splice ls es) (undos ls es) = ls :=
  spliceFrom_undosFrom h rfl

theorem slices_undosFrom (h : Ordered ls.length pos es)
    (hnew : new.drop off = spliceFrom ls pos es) :
    ∀ p ∈ es.zip (undosFrom ls pos off es),
      (new.take p.2.stop).drop p.2.start = p.1.lines ∧
        (ls.take p.1.stop).drop p.1.start = p.2.lines := by
  induction es generalizing pos off with
  | nil => exact fun _ hp => absurd hp List.not_mem_nil
  | cons e es ih =>
    obtain ⟨hstart, hrange, hrest⟩ := h
    obtain ⟨-, hlines, hbehind⟩ := cut_of_drop_eq (le_trans hrange hrest.le_stop) hnew
    rw [undosFrom, List.zip_cons_cons, List.forall_mem_cons]
    exact ⟨⟨hlines, rfl⟩, ih hrest hbehind⟩

/-- Edits of an edited list that undo the edits it was made by: each takes away what the other
put in, and puts back what the other took away. -/
structure Undoes (ls new : List α) (es undos : List (Edit α)) : Prop where
  length_eq : es.length = undos.length
  ordered : Ordered new.length 0 undos
  slices : ∀ p ∈ es.zip undos, (new.take p.2.stop).drop p.2.start = p.1.lines ∧
    (ls.take p.1.stop).drop p.1.start = p.2.lines
  undone : splice new undos = ls

theorem undoes_undos (h : Ordered ls.length 0 es) : Undoes ls (splice ls es) es (undos ls es) where
  length_eq := (length_undosFrom ls 0 0 es).symm
  ordered := ordered_undosFrom h (Nat.zero_le _) rfl
  slices := slices_undosFrom h rfl
  undone := splice_undos h

end Undo

/-- An element that no edit replaces. -/
def Outside (es : List (Edit α)) (i : ℕ) : Prop := ∀ e ∈ es, i < e.start ∨ e.stop ≤ i

instance (es : List (Edit α)) (i : ℕ) : Decidable (Outside es i) :=
  inferInstanceAs (Decidable (∀ e ∈ es, i < e.start ∨ e.stop ≤ i))

/-- The place of an element that is kept, from a position on. -/
def newIndexFrom : ℕ → List (Edit α) → ℕ → ℕ
  | pos, [], i => i - pos
  | pos, e :: es, i =>
    if i < e.start then i - pos else (e.start - pos) + e.lines.length + newIndexFrom e.stop es i

/-- The place in an edited list of an element that is kept. -/
def newIndex (es : List (Edit α)) (i : ℕ) : ℕ := newIndexFrom 0 es i

section NewIndex

variable {ls : List α} {es : List (Edit α)} {pos stop i : ℕ}

/-- Edits that come after an element are all that is made behind it. -/
theorem drop_newIndexFrom (h : Ordered stop pos es) (hstop : stop ≤ ls.length) (hpos : pos ≤ i)
    (hout : Outside es i) :
    (spliceFrom ls pos es).drop (newIndexFrom pos es i) =
      spliceFrom ls i (es.filter fun e => i < e.start) := by
  induction es generalizing pos with
  | nil =>
    rw [spliceFrom, newIndexFrom, List.drop_drop, Nat.add_sub_cancel' hpos]
    rfl
  | cons e es ih =>
    obtain ⟨hstart, hrange, hrest⟩ := h
    rw [Outside, List.forall_mem_cons] at hout
    by_cases hlt : i < e.start
    · have hall : ∀ f ∈ e :: es, i < f.start := by
        refine List.forall_mem_cons.mpr ⟨hlt, fun f hf => ?_⟩
        exact lt_of_lt_of_le hlt (le_trans hrange ((ordered_iff.mp hrest).2.1 f hf).1)
      have hordered : Ordered stop i (e :: es) := ⟨hlt.le, hrange, hrest⟩
      rw [newIndexFrom, if_pos hlt, List.filter_eq_self.mpr (by simpa using hall),
        spliceFrom_eq_append hordered hpos]
      have hi : i ≤ ls.length := le_trans hordered.le_stop hstop
      exact List.drop_left' (by rw [List.length_drop, List.length_take_of_le hi])
    · have hle : e.stop ≤ i := hout.1.resolve_left hlt
      have hlength : ((ls.take e.start).drop pos ++ e.lines).length =
          e.start - pos + e.lines.length := by
        rw [List.length_append, List.length_drop,
          List.length_take_of_le (le_trans (le_trans hrange hrest.le_stop) hstop)]
      rw [newIndexFrom, if_neg hlt, spliceFrom, ← List.drop_drop, List.drop_left' hlength,
        ih hrest hle hout.2, List.filter_cons_of_neg (by simpa using hlt)]

/-- Behind a kept element stand the elements after it, with the edits after it made. -/
theorem drop_newIndex (h : Ordered ls.length 0 es) (hout : Outside es i) :
    (splice ls es).drop (newIndex es i) = spliceFrom ls i (es.filter fun e => i < e.start) :=
  drop_newIndexFrom h le_rfl (Nat.zero_le i) hout

/-- Edits with nothing kept from a position on, and nothing put in, leave nothing. -/
theorem spliceFrom_eq_nil_iff (h : Ordered ls.length pos es) :
    spliceFrom ls pos es = [] ↔
      (∀ i, pos ≤ i → i < ls.length → ¬Outside es i) ∧ ∀ e ∈ es, e.lines = [] := by
  induction es generalizing pos with
  | nil =>
    rw [spliceFrom, List.drop_eq_nil_iff]
    constructor
    · exact fun hle => ⟨fun i hi hlt => absurd (lt_of_le_of_lt hi hlt) (not_lt_of_ge hle),
        fun _ he => absurd he List.not_mem_nil⟩
    · rintro ⟨hnone, -⟩
      by_contra hlt
      exact hnone pos le_rfl (not_le.mp hlt) fun _ he => absurd he List.not_mem_nil
  | cons e es ih =>
    obtain ⟨hstart, hrange, hrest⟩ := h
    have hstop := hrest.le_stop
    have hbehind : ∀ i, i < e.start → Outside es i := fun i hi f hf =>
      Or.inl (lt_of_lt_of_le hi (le_trans hrange ((ordered_iff.mp hrest).2.1 f hf).1))
    rw [spliceFrom, List.append_eq_nil_iff, List.append_eq_nil_iff, ih hrest,
      List.drop_eq_nil_iff, List.length_take_of_le (le_trans hrange hstop), List.forall_mem_cons]
    constructor
    · rintro ⟨⟨hle, hlines⟩, hnone, hempty⟩
      refine ⟨fun i hi hlt hout => ?_, hlines, hempty⟩
      rw [Outside, List.forall_mem_cons] at hout
      rcases hout.1 with hi' | hi'
      · omega
      · exact hnone i hi' hlt hout.2
    · rintro ⟨hnone, hlines, hempty⟩
      refine ⟨⟨?_, hlines⟩, fun i hi hlt hout => ?_, hempty⟩
      · by_contra hlt
        refine hnone pos le_rfl (by omega) (List.forall_mem_cons.mpr ⟨Or.inl (by omega), ?_⟩)
        exact hbehind pos (by omega)
      · refine hnone i (by omega) hlt (List.forall_mem_cons.mpr ⟨Or.inr hi, hout⟩)

/-- A kept element stands behind its edits where it is said to. -/
theorem getElem?_newIndex (h : Ordered ls.length 0 es) (hout : Outside es i) :
    (splice ls es)[newIndex es i]? = ls[i]? := by
  have hdrop := drop_newIndex h hout
  have hhead : ((splice ls es).drop (newIndex es i))[0]? = ls[i]? := by
    rw [hdrop]
    cases hes : es.filter fun e => i < e.start with
    | nil =>
      rw [spliceFrom, List.getElem?_drop, Nat.add_zero]
    | cons e fs =>
      have hmem : e ∈ es.filter fun e => i < e.start := by
        rw [hes]
        exact List.mem_cons_self
      obtain ⟨hmem, hlt⟩ := List.mem_filter.mp hmem
      have hlt : i < e.start := of_decide_eq_true hlt
      have hstop := (ordered_iff.mp h).2.1 e hmem
      rw [spliceFrom, List.append_assoc, List.getElem?_append_left, List.getElem?_drop,
        Nat.add_zero, List.getElem?_take_of_lt hlt]
      rw [List.length_drop, List.length_take_of_le (le_trans hstop.2.1 hstop.2.2)]
      exact Nat.sub_pos_of_lt hlt
  rwa [List.getElem?_drop, Nat.add_zero] at hhead

/-- Something is behind an element once the edits are made. -/
def Followed (count : ℕ) (es : List (Edit α)) (i : ℕ) : Prop :=
  (∃ k, i < k ∧ k < count ∧ Outside es k) ∨ ∃ e ∈ es, i < e.start ∧ e.lines ≠ []

theorem newIndex_succ_lt_iff (h : Ordered ls.length 0 es) (hlt : i < ls.length)
    (hout : Outside es i) :
    newIndex es i + 1 < (splice ls es).length ↔ Followed ls.length es i := by
  have hbehind : ∀ e ∈ es.filter fun e => i < e.start, i + 1 ≤ e.start ∧ e ∈ es := by
    intro e he
    obtain ⟨hmem, hlt⟩ := List.mem_filter.mp he
    exact ⟨of_decide_eq_true hlt, hmem⟩
  have hordered : Ordered ls.length (i + 1) (es.filter fun e => i < e.start) := by
    obtain ⟨-, hmem, hpairs⟩ := ordered_iff.mp h
    exact ordered_iff.mpr ⟨hlt, fun e he => ⟨(hbehind e he).1, (hmem e (hbehind e he).2).2⟩,
      hpairs.filter _⟩
  have hdrop := drop_newIndex h hout
  rw [spliceFrom_eq_append hordered (Nat.le_succ i)] at hdrop
  have hlength := congrArg List.length hdrop
  rw [List.length_drop, List.length_append, List.length_drop, List.length_take_of_le hlt] at hlength
  have hnil : newIndex es i + 1 < (splice ls es).length ↔
      spliceFrom ls (i + 1) (es.filter fun e => i < e.start) ≠ [] := by
    rw [← List.length_pos_iff_ne_nil]
    omega
  have houtside (k : ℕ) (hk : i < k) :
      Outside (es.filter fun e => i < e.start) k ↔ Outside es k := by
    constructor
    · intro hk' e he
      rcases hout e he with hlt | hle
      · exact hk' e (List.mem_filter.mpr ⟨he, decide_eq_true hlt⟩)
      · exact Or.inr (le_trans hle hk.le)
    · exact fun hk' e he => hk' e (hbehind e he).2
  rw [hnil, ne_eq, spliceFrom_eq_nil_iff hordered, not_and_or]
  constructor
  · rintro (hkept | hlines)
    · push Not at hkept
      obtain ⟨k, hk, hk', hout'⟩ := hkept
      exact Or.inl ⟨k, hk, hk', (houtside k hk).mp hout'⟩
    · push Not at hlines
      obtain ⟨e, he, hne⟩ := hlines
      exact Or.inr ⟨e, (hbehind e he).2, (hbehind e he).1, hne⟩
  · rintro (⟨k, hk, hk', hout'⟩ | ⟨e, he, hlt, hne⟩)
    · exact Or.inl fun hnone => hnone k hk hk' ((houtside k hk).mpr hout')
    · exact Or.inr fun hlines =>
        hne (hlines e (List.mem_filter.mpr ⟨he, decide_eq_true hlt⟩))

/-- Elements behind the last edit are left where they are. -/
theorem spliceFrom_append (h : Ordered ls.length pos es) (rest : List α) :
    spliceFrom (ls ++ rest) pos es = spliceFrom ls pos es ++ rest := by
  induction es generalizing pos with
  | nil => exact List.drop_append_of_le_length h
  | cons e es ih =>
    obtain ⟨hstart, hrange, hrest⟩ := h
    rw [spliceFrom, spliceFrom, ih hrest,
      List.take_append_of_le_length (le_trans hrange hrest.le_stop)]
    simp only [List.append_assoc]

end NewIndex

end Edit

end Ezer.Lib
