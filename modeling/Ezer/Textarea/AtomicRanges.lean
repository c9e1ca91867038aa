import Ezer.Textarea.Editor
import Mathlib.Data.List.Pairwise

/-!
# Atomic ranges are taken whole

The normalized atomic ranges are apart and end at boundaries. A range is made larger
until it takes each of them whole or not at all, and a cursor is moved out of them.
-/

namespace Ezer.Textarea

open Lib

/-- Ranges that are apart, in their order, each between two boundaries. -/
structure AtomicIn (g : Graphemes) (t : Text) (atomics : List ByteRange) : Prop where
  apart : atomics.Pairwise fun a b => a.stop ≤ b.start
  valid : ∀ r ∈ atomics, r.start < r.stop ∧ g.isBoundary t r.start = true ∧
    g.isBoundary t r.stop = true

/-- An offset that is inside none of some ranges. -/
def Outside (n : ℕ) (ranges : List ByteRange) : Prop := ∀ r ∈ ranges, n ≤ r.start ∨ r.stop ≤ n

/-- A range that takes another one whole or not at all. -/
def ByteRange.Aligned (r atomic : ByteRange) : Prop :=
  (r.start ≤ atomic.start ∧ atomic.stop ≤ r.stop) ∨ atomic.stop ≤ r.start ∨ r.stop ≤ atomic.start

section Merge

variable {g : Graphemes} {t : Text}

theorem exists_mergeRanges_cover (previous : ByteRange) (rs : List ByteRange)
    (hsorted : (previous :: rs).Pairwise fun a b => a.start ≤ b.start) :
    ∀ r ∈ previous :: rs, ∃ a ∈ mergeRanges previous rs, a.start ≤ r.start ∧ r.stop ≤ a.stop := by
  induction rs generalizing previous with
  | nil =>
    intro r hr
    exact ⟨r, hr, le_rfl, le_rfl⟩
  | cons next rs ih =>
    obtain ⟨hprevious, hrest⟩ := List.pairwise_cons.mp hsorted
    have hnext := hprevious next List.mem_cons_self
    rw [mergeRanges]
    split
    · have hmerged : (⟨previous.start, max previous.stop next.stop⟩ :: rs).Pairwise
          fun a b : ByteRange => a.start ≤ b.start :=
        List.pairwise_cons.mpr ⟨fun r hr => hprevious r (List.mem_cons_of_mem _ hr),
          (List.pairwise_cons.mp hrest).2⟩
      have hcover := ih _ hmerged
      obtain ⟨a, ha, hstart, hstop⟩ := hcover _ List.mem_cons_self
      dsimp only at hstart hstop
      rintro r (_ | ⟨_, _ | ⟨_, hr⟩⟩)
      · exact ⟨a, ha, hstart, by omega⟩
      · exact ⟨a, ha, by omega, by omega⟩
      · exact hcover r (List.mem_cons_of_mem _ hr)
    · rintro r (_ | ⟨_, hr⟩)
      · exact ⟨previous, List.mem_cons_self, le_rfl, le_rfl⟩
      · obtain ⟨a, ha, hcover⟩ := ih next hrest r hr
        exact ⟨a, List.mem_cons_of_mem _ ha, hcover⟩

theorem le_of_mem_mergeRanges {lower : ℕ} {previous : ByteRange} {rs : List ByteRange}
    (h : ∀ r ∈ previous :: rs, lower ≤ r.start) : ∀ r ∈ mergeRanges previous rs, lower ≤ r.start := by
  induction rs generalizing previous with
  | nil => exact h
  | cons next rs ih =>
    rw [mergeRanges]
    split
    · apply ih
      rintro r (_ | ⟨_, hr⟩)
      · exact h previous List.mem_cons_self
      · exact h r (List.mem_cons_of_mem _ (List.mem_cons_of_mem _ hr))
    · rintro r (_ | ⟨_, hr⟩)
      · exact h previous List.mem_cons_self
      · exact ih (fun r hr => h r (List.mem_cons_of_mem _ hr)) r hr

theorem atomicIn_mergeRanges {previous : ByteRange} {rs : List ByteRange}
    (hsorted : (previous :: rs).Pairwise fun a b => a.start ≤ b.start)
    (hvalid : ∀ r ∈ previous :: rs, r.start < r.stop ∧ g.isBoundary t r.start = true ∧
      g.isBoundary t r.stop = true) : AtomicIn g t (mergeRanges previous rs) := by
  induction rs generalizing previous with
  | nil => exact ⟨List.pairwise_singleton _ _, hvalid⟩
  | cons next rs ih =>
    obtain ⟨hprevious, hrest⟩ := List.pairwise_cons.mp hsorted
    have hnext := hprevious next List.mem_cons_self
    have hfirst := hvalid previous List.mem_cons_self
    have hsecond := hvalid next (List.mem_cons_of_mem _ List.mem_cons_self)
    rw [mergeRanges]
    split
    · apply ih
      · exact List.pairwise_cons.mpr ⟨fun r hr => hprevious r (List.mem_cons_of_mem _ hr),
          (List.pairwise_cons.mp hrest).2⟩
      · rintro r (_ | ⟨_, hr⟩)
        · refine ⟨by dsimp only; omega, hfirst.2.1, ?_⟩
          rcases Nat.le_total previous.stop next.stop with hle | hle
          · rw [Nat.max_eq_right hle]
            exact hsecond.2.2
          · rw [Nat.max_eq_left hle]
            exact hfirst.2.2
        · exact hvalid r (List.mem_cons_of_mem _ (List.mem_cons_of_mem _ hr))
    · rename_i hgap
      have hatomic := ih hrest fun r hr => hvalid r (List.mem_cons_of_mem _ hr)
      have hlower : ∀ r ∈ mergeRanges next rs, previous.stop ≤ r.start := by
        apply le_of_mem_mergeRanges
        intro r hr
        rcases List.mem_cons.mp hr with rfl | hr
        · omega
        · have hle := (List.pairwise_cons.mp hrest).1 r hr
          omega
      refine ⟨List.pairwise_cons.mpr ⟨hlower, hatomic.apart⟩, ?_⟩
      rintro r (_ | ⟨_, hr⟩)
      · exact hfirst
      · exact hatomic.valid r hr

end Merge

section Normalize

variable (g : Graphemes) (t : Text) (ranges : List ByteRange)

theorem valid_of_normalizeAtomicRange {r a : ByteRange} (h : normalizeAtomicRange g t r = some a) :
    a.start < a.stop ∧ g.isBoundary t a.start = true ∧ g.isBoundary t a.stop = true := by
  rw [normalizeAtomicRange] at h
  dsimp only at h
  split at h
  · cases h
  · split at h
    · rename_i hlt
      cases h
      exact ⟨hlt, g.isBoundary_floor t _, g.isBoundary_ceil t _⟩
    · cases h

instance : Std.Total ByteRange.Le := ⟨fun a b => by
  rw [ByteRange.Le, ByteRange.Le]
  omega⟩

instance : IsTrans ByteRange ByteRange.Le := ⟨fun a b c hab hbc => by
  rw [ByteRange.Le] at hab hbc ⊢
  omega⟩

theorem sorted_atomicRanges :
    ((ranges.filterMap (normalizeAtomicRange g t)).insertionSort ByteRange.Le).Pairwise
      fun a b => a.start ≤ b.start := by
  refine (List.pairwise_insertionSort ByteRange.Le _).imp ?_
  intro a b hab
  rw [ByteRange.Le] at hab
  omega

theorem atomicIn_normalizeAtomicRanges : AtomicIn g t (normalizeAtomicRanges g t ranges) := by
  have hsorted := sorted_atomicRanges g t ranges
  have hvalid : ∀ a ∈ (ranges.filterMap (normalizeAtomicRange g t)).insertionSort ByteRange.Le,
      a.start < a.stop ∧ g.isBoundary t a.start = true ∧ g.isBoundary t a.stop = true := by
    intro a ha
    rw [(List.perm_insertionSort _ _).mem_iff, List.mem_filterMap] at ha
    obtain ⟨r, -, hr⟩ := ha
    exact valid_of_normalizeAtomicRange g t hr
  rw [normalizeAtomicRanges]
  cases hlist : (ranges.filterMap (normalizeAtomicRange g t)).insertionSort ByteRange.Le with
  | nil => exact ⟨List.Pairwise.nil, nofun⟩
  | cons r rs =>
    rw [hlist] at hsorted hvalid
    exact atomicIn_mergeRanges hsorted hvalid

/-- A range of the text that is not empty is part of one of its atomic ranges. -/
theorem exists_normalizeAtomicRanges {r : ByteRange} (hr : r ∈ ranges) (hlt : r.start < r.stop)
    (hle : r.stop ≤ byteLen t) :
    ∃ a ∈ normalizeAtomicRanges g t ranges, a.start ≤ r.start ∧ r.stop ≤ a.stop := by
  have hsorted := sorted_atomicRanges g t ranges
  have hstart : r.rawStart (byteLen t) = r.start := by
    rw [ByteRange.rawStart]
    omega
  have hstop : r.rawEnd (byteLen t) = r.stop := by
    rw [ByteRange.rawEnd]
    omega
  have hfloor := g.floor_le t r.start
  have hceil := g.min_le_ceil t r.stop
  have hnormalized : normalizeAtomicRange g t r =
      some ⟨g.floorGraphemeBoundary t r.start, g.ceilGraphemeBoundary t r.stop⟩ := by
    rw [normalizeAtomicRange]
    dsimp only
    rw [hstart, hstop, if_neg (by omega), if_pos (by omega)]
  have hmem : (⟨g.floorGraphemeBoundary t r.start, g.ceilGraphemeBoundary t r.stop⟩ : ByteRange) ∈
      (ranges.filterMap (normalizeAtomicRange g t)).insertionSort ByteRange.Le := by
    rw [(List.perm_insertionSort _ _).mem_iff, List.mem_filterMap]
    exact ⟨r, hr, hnormalized⟩
  rw [normalizeAtomicRanges]
  cases hlist : (ranges.filterMap (normalizeAtomicRange g t)).insertionSort ByteRange.Le with
  | nil =>
    rw [hlist] at hmem
    cases hmem
  | cons first rest =>
    rw [hlist] at hsorted hmem
    obtain ⟨a, ha, hastart, hastop⟩ := exists_mergeRanges_cover first rest hsorted _ hmem
    dsimp only at hastart hastop
    exact ⟨a, ha, by omega, by omega⟩

end Normalize

section Expand

variable {g : Graphemes} {t : Text} {atomics : List ByteRange}

theorem le_absorb (r atomic : ByteRange) :
    (r.absorb atomic).start ≤ r.start ∧ r.stop ≤ (r.absorb atomic).stop := by
  rw [ByteRange.absorb]
  split
  · exact ⟨Nat.min_le_left _ _, Nat.le_max_left _ _⟩
  · exact ⟨le_rfl, le_rfl⟩

theorem aligned_absorb_self (r atomic : ByteRange) : (r.absorb atomic).Aligned atomic := by
  rw [ByteRange.absorb, ByteRange.Aligned]
  split
  · dsimp only
    omega
  · omega

theorem aligned_absorb {r a b : ByteRange} (hr : r.start < r.stop) (ha : a.start < a.stop)
    (hb : b.start < b.stop) (hab : a.stop ≤ b.start ∨ b.stop ≤ a.start) (h : r.Aligned a) :
    (r.absorb b).Aligned a := by
  rw [ByteRange.Aligned] at h ⊢
  rw [ByteRange.absorb]
  split
  · dsimp only
    omega
  · exact h

/-- What a range that was made larger keeps. -/
structure Encloses (g : Graphemes) (t : Text) (r larger : ByteRange) : Prop where
  start_le : larger.start ≤ r.start
  le_stop : r.stop ≤ larger.stop
  isBoundary_start : g.isBoundary t larger.start = true
  isBoundary_stop : g.isBoundary t larger.stop = true

theorem Encloses.trans {r larger largest : ByteRange} (h : Encloses g t r larger)
    (h' : Encloses g t larger largest) : Encloses g t r largest :=
  ⟨h'.start_le.trans h.start_le, h.le_stop.trans h'.le_stop, h'.isBoundary_start,
    h'.isBoundary_stop⟩

theorem encloses_absorb {r a : ByteRange} (hr : Encloses g t r r)
    (ha : a.start < a.stop ∧ g.isBoundary t a.start = true ∧ g.isBoundary t a.stop = true) :
    Encloses g t r (r.absorb a) := by
  obtain ⟨hstart, hstop⟩ := le_absorb r a
  refine ⟨hstart, hstop, ?_, ?_⟩
  · rw [ByteRange.absorb]
    split
    · rcases Nat.le_total r.start a.start with hle | hle
      · rw [Nat.min_eq_left hle]
        exact hr.isBoundary_start
      · rw [Nat.min_eq_right hle]
        exact ha.2.1
    · exact hr.isBoundary_start
  · rw [ByteRange.absorb]
    split
    · rcases Nat.le_total r.stop a.stop with hle | hle
      · rw [Nat.max_eq_right hle]
        exact ha.2.2
      · rw [Nat.max_eq_left hle]
        exact hr.isBoundary_stop
    · exact hr.isBoundary_stop

theorem encloses_foldl {r : ByteRange} (hr : Encloses g t r r)
    (hvalid : ∀ a ∈ atomics, a.start < a.stop ∧ g.isBoundary t a.start = true ∧
      g.isBoundary t a.stop = true) : Encloses g t r (atomics.foldl ByteRange.absorb r) := by
  induction atomics generalizing r with
  | nil => exact hr
  | cons a atomics ih =>
    have hfirst := encloses_absorb hr (hvalid a List.mem_cons_self)
    have hself : Encloses g t (r.absorb a) (r.absorb a) :=
      ⟨le_rfl, le_rfl, hfirst.isBoundary_start, hfirst.isBoundary_stop⟩
    exact hfirst.trans (ih hself fun b hb => hvalid b (List.mem_cons_of_mem _ hb))

theorem aligned_foldl {r a : ByteRange} (hr : r.start < r.stop)
    (hvalid : ∀ b ∈ atomics, b.start < b.stop) (ha : a.start < a.stop)
    (hapart : ∀ b ∈ atomics, a.stop ≤ b.start ∨ b.stop ≤ a.start) (h : r.Aligned a) :
    (atomics.foldl ByteRange.absorb r).Aligned a := by
  induction atomics generalizing r with
  | nil => exact h
  | cons b atomics ih =>
    have hb := hvalid b List.mem_cons_self
    obtain ⟨hstart, hstop⟩ := le_absorb r b
    exact ih (by omega) (fun c hc => hvalid c (List.mem_cons_of_mem _ hc))
      (fun c hc => hapart c (List.mem_cons_of_mem _ hc))
      (aligned_absorb hr ha hb (hapart b List.mem_cons_self) h)

theorem aligned_foldl_mem {r : ByteRange} (hr : r.start < r.stop)
    (hatomics : AtomicIn g t atomics) :
    ∀ a ∈ atomics, (atomics.foldl ByteRange.absorb r).Aligned a := by
  obtain ⟨hapart, hvalid⟩ := hatomics
  induction atomics generalizing r with
  | nil => nofun
  | cons b atomics ih =>
    obtain ⟨hfirst, hrest⟩ := List.pairwise_cons.mp hapart
    have hvalidRest := fun c hc => hvalid c (List.mem_cons_of_mem b hc)
    obtain ⟨hstart, hstop⟩ := le_absorb r b
    rw [List.foldl_cons]
    rintro a (_ | ⟨_, ha⟩)
    · exact aligned_foldl (by omega) (fun c hc => (hvalidRest c hc).1)
        (hvalid b List.mem_cons_self).1 (fun c hc => Or.inl (hfirst c hc))
        (aligned_absorb_self r b)
    · exact ih (by omega) hrest hvalidRest a ha

theorem expandToAtomic_spec (hatomics : AtomicIn g t atomics) (fuel : ℕ) (r : ByteRange)
    (hr : Encloses g t r r) (hlt : r.start < r.stop) :
    Encloses g t r (expandToAtomic atomics (fuel + 1) r) ∧
      ∀ a ∈ atomics, (expandToAtomic atomics (fuel + 1) r).Aligned a := by
  have hpass := encloses_foldl hr hatomics.valid
  have haligned := aligned_foldl_mem hlt hatomics
  induction fuel generalizing r with
  | zero =>
    rw [expandToAtomic]
    split
    · rename_i hsame
      rw [hsame] at haligned
      exact ⟨hr, haligned⟩
    · exact ⟨hpass, haligned⟩
  | succ fuel ih =>
    rw [expandToAtomic]
    split
    · rename_i hsame
      rw [hsame] at haligned
      exact ⟨hr, haligned⟩
    · have hself : Encloses g t (atomics.foldl ByteRange.absorb r)
          (atomics.foldl ByteRange.absorb r) :=
        ⟨le_rfl, le_rfl, hpass.isBoundary_start, hpass.isBoundary_stop⟩
      have hlt' : (atomics.foldl ByteRange.absorb r).start <
          (atomics.foldl ByteRange.absorb r).stop := by
        have hstart := hpass.start_le
        have hstop := hpass.le_stop
        omega
      obtain ⟨hencloses, hall⟩ := ih _ hself hlt' (encloses_foldl hself hatomics.valid)
        (aligned_foldl_mem hlt' hatomics)
      exact ⟨hpass.trans hencloses, hall⟩

end Expand

section Cursors

variable {g : Graphemes} {t : Text} {atomics : List ByteRange}

theorem AtomicIn.eq_or_apart (h : AtomicIn g t atomics) {a b : ByteRange} (ha : a ∈ atomics)
    (hb : b ∈ atomics) : a = b ∨ a.stop ≤ b.start ∨ b.stop ≤ a.start := by
  by_cases heq : a = b
  · exact Or.inl heq
  · have hsymm : Std.Symm fun a b : ByteRange => a.stop ≤ b.start ∨ b.stop ≤ a.start :=
      ⟨fun _ _ => Or.symm⟩
    have hboth : atomics.Pairwise fun a b => a.stop ≤ b.start ∨ b.stop ≤ a.start :=
      h.apart.imp Or.inl
    exact Or.inr (hboth.forall ha hb heq)

theorem AtomicIn.outside_start (h : AtomicIn g t atomics) {r : ByteRange} (hr : r ∈ atomics) :
    Outside r.start atomics := by
  intro a ha
  have hlt := (h.valid r hr).1
  rcases h.eq_or_apart hr ha with rfl | hle | hle
  · exact Or.inl le_rfl
  · exact Or.inl (by omega)
  · exact Or.inr hle

theorem AtomicIn.outside_stop (h : AtomicIn g t atomics) {r : ByteRange} (hr : r ∈ atomics) :
    Outside r.stop atomics := by
  intro a ha
  have hlt := (h.valid r hr).1
  rcases h.eq_or_apart hr ha with rfl | hle | hle
  · exact Or.inr le_rfl
  · exact Or.inl hle
  · exact Or.inr (by omega)

/-- A cursor that may be left at an offset: a boundary in no atomic range. -/
structure Stop (g : Graphemes) (t : Text) (atomics : List ByteRange) (n : ℕ) : Prop where
  isBoundary : g.isBoundary t n = true
  outside : Outside n atomics

theorem AtomicIn.stop_start (h : AtomicIn g t atomics) {r : ByteRange} (hr : r ∈ atomics) :
    Stop g t atomics r.start := ⟨(h.valid r hr).2.1, h.outside_start hr⟩

theorem AtomicIn.stop_stop (h : AtomicIn g t atomics) {r : ByteRange} (hr : r ∈ atomics) :
    Stop g t atomics r.stop := ⟨(h.valid r hr).2.2, h.outside_stop hr⟩

theorem outside_of_find?_none {n : ℕ}
    (h : (atomics.find? fun r => decide (r.start < n ∧ n < r.stop)) = none) :
    Outside n atomics := by
  intro r hr
  have hnot := List.find?_eq_none.mp h r hr
  rw [decide_eq_true_iff] at hnot
  omega

theorem stop_normalizeCursor (h : AtomicIn g t atomics) {n : ℕ} (hn : g.isBoundary t n = true) :
    Stop g t atomics (normalizeCursorForAtomicRanges n atomics) := by
  rw [normalizeCursorForAtomicRanges]
  cases hfind : atomics.find? fun r => decide (r.start < n ∧ n < r.stop) with
  | none => exact ⟨hn, outside_of_find?_none hfind⟩
  | some r =>
    have hr := List.mem_of_find?_eq_some hfind
    dsimp only
    split
    · exact h.stop_start hr
    · exact h.stop_stop hr

theorem stop_previousAtomicBoundary (h : AtomicIn g t atomics) (n : ℕ) :
    Stop g t atomics (previousAtomicBoundary g t n atomics) := by
  rw [previousAtomicBoundary]
  cases hfind : atomics.find? fun r => decide (r.start < n ∧ n ≤ r.stop) with
  | some r => exact h.stop_start (List.mem_of_find?_eq_some hfind)
  | none =>
    dsimp only
    cases hinside : atomics.find? fun r =>
        decide (r.start < g.previousGraphemeBoundary t n ∧
          g.previousGraphemeBoundary t n < r.stop) with
    | some r => exact h.stop_start (List.mem_of_find?_eq_some hinside)
    | none => exact ⟨g.isBoundary_previous t n, outside_of_find?_none hinside⟩

theorem previousAtomicBoundary_le (n : ℕ) : previousAtomicBoundary g t n atomics ≤ n := by
  have hprevious : g.previousGraphemeBoundary t n ≤ n := by
    rcases Nat.eq_zero_or_pos n with rfl | hn
    · exact le_of_eq rfl
    · exact (g.previous_lt t hn).le
  rw [previousAtomicBoundary]
  cases hfind : atomics.find? fun r => decide (r.start < n ∧ n ≤ r.stop) with
  | some r =>
    have hr := List.find?_some hfind
    rw [decide_eq_true_iff] at hr
    exact hr.1.le
  | none =>
    dsimp only
    cases hinside : atomics.find? fun r =>
        decide (r.start < g.previousGraphemeBoundary t n ∧
          g.previousGraphemeBoundary t n < r.stop) with
    | some r =>
      have hr := List.find?_some hinside
      rw [decide_eq_true_iff] at hr
      exact (hr.1.trans_le hprevious).le
    | none => exact hprevious

theorem stop_nextAtomicBoundary (h : AtomicIn g t atomics) (n : ℕ) :
    Stop g t atomics (nextAtomicBoundary g t n atomics) := by
  rw [nextAtomicBoundary]
  cases hfind : atomics.find? fun r => decide (r.start ≤ n ∧ n < r.stop) with
  | some r => exact h.stop_stop (List.mem_of_find?_eq_some hfind)
  | none =>
    dsimp only
    cases hinside : atomics.find? fun r =>
        decide (r.start < g.nextGraphemeBoundary t n ∧ g.nextGraphemeBoundary t n < r.stop) with
    | some r => exact h.stop_stop (List.mem_of_find?_eq_some hinside)
    | none => exact ⟨g.isBoundary_next t n, outside_of_find?_none hinside⟩

theorem le_nextAtomicBoundary {n : ℕ} (hn : n ≤ byteLen t) :
    n ≤ nextAtomicBoundary g t n atomics := by
  have hnext : n ≤ g.nextGraphemeBoundary t n := by
    rcases Nat.lt_or_eq_of_le hn with hlt | rfl
    · exact (g.lt_next t hlt).le
    · rw [Graphemes.nextGraphemeBoundary, if_pos le_rfl]
  rw [nextAtomicBoundary]
  cases hfind : atomics.find? fun r => decide (r.start ≤ n ∧ n < r.stop) with
  | some r =>
    have hr := List.find?_some hfind
    rw [decide_eq_true_iff] at hr
    exact hr.2.le
  | none =>
    dsimp only
    cases hinside : atomics.find? fun r =>
        decide (r.start < g.nextGraphemeBoundary t n ∧ g.nextGraphemeBoundary t n < r.stop) with
    | some r =>
      have hr := List.find?_some hinside
      rw [decide_eq_true_iff] at hr
      exact (hnext.trans_lt hr.2).le
    | none => exact hnext

/-- A range to be replaced is between two boundaries and takes atomic ranges whole. -/
theorem normalizeReplacementRange_spec (h : AtomicIn g t atomics) (range : ByteRange) :
    (normalizeReplacementRange g t range atomics).start ≤
        (normalizeReplacementRange g t range atomics).stop ∧
      g.isBoundary t (normalizeReplacementRange g t range atomics).start = true ∧
      g.isBoundary t (normalizeReplacementRange g t range atomics).stop = true ∧
      ∀ a ∈ atomics, (normalizeReplacementRange g t range atomics).Aligned a := by
  rw [normalizeReplacementRange]
  dsimp only
  split
  · have hstop := stop_normalizeCursor h (g.isBoundary_normalize t (range.rawStart (byteLen t)))
    refine ⟨le_rfl, hstop.isBoundary, hstop.isBoundary, fun a ha => ?_⟩
    rcases hstop.outside a ha with hle | hle
    · exact Or.inr (Or.inr hle)
    · exact Or.inr (Or.inl hle)
  · rename_i hne
    have hfloor := g.floor_le t (range.rawStart (byteLen t))
    have hceil := g.min_le_ceil t (range.rawEnd (byteLen t))
    have hraw : range.rawStart (byteLen t) < range.rawEnd (byteLen t) := by
      rw [ByteRange.rawStart, ByteRange.rawEnd] at hne ⊢
      omega
    have hend : range.rawEnd (byteLen t) ≤ byteLen t := Nat.min_le_right _ _
    have hlt : g.floorGraphemeBoundary t (range.rawStart (byteLen t)) <
        g.ceilGraphemeBoundary t (range.rawEnd (byteLen t)) := by omega
    obtain ⟨hencloses, haligned⟩ := expandToAtomic_spec h atomics.length
      ⟨g.floorGraphemeBoundary t (range.rawStart (byteLen t)),
        g.ceilGraphemeBoundary t (range.rawEnd (byteLen t))⟩
      ⟨le_rfl, le_rfl, g.isBoundary_floor t _, g.isBoundary_ceil t _⟩ hlt
    have hstart := hencloses.start_le
    have hstop := hencloses.le_stop
    dsimp only at hstart hstop
    exact ⟨by omega, hencloses.isBoundary_start, hencloses.isBoundary_stop, haligned⟩

end Cursors

end Ezer.Textarea
