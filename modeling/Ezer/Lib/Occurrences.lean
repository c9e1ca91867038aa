import Ezer.Lib.Split
import Mathlib.Data.List.Infix

/-!
# Occurrences of a pattern

Where a pattern occurs first in a text, and texts in which every occurrence of
one pattern is followed by another.
-/

namespace Ezer.Lib

/-- A pattern put behind a text begins nowhere inside the text. -/
def FirstBehind (p u : Text) : Prop := ∀ s, s <:+ u → s ≠ [] → ¬ p <+: s ++ p

theorem FirstBehind.nil (p : Text) : FirstBehind p [] :=
  fun _ hs hne => (hne (List.suffix_nil.mp hs)).elim

theorem FirstBehind.of_cons {p u : Text} {c : Char} (h : FirstBehind p (c :: u)) :
    FirstBehind p u :=
  fun s hs => h s (hs.trans (List.suffix_cons c u))

/-- What is behind a pattern decides nothing about the places inside it. -/
theorem prefix_append_self_iff (p s v : Text) : p <+: s ++ p ++ v ↔ p <+: s ++ p := by
  constructor
  · intro h
    refine List.prefix_of_prefix_length_le h (List.prefix_append _ _) ?_
    rw [List.length_append]
    omega
  · intro h
    exact h.trans (List.prefix_append _ _)

theorem splitOnce_of_firstBehind {p u : Text} (h : FirstBehind p u) (v : Text) :
    splitOnce p (u ++ p ++ v) = some (u, v) := by
  induction u with
  | nil =>
    have hdrop : (p ++ v).drop p.length = v := List.drop_left
    cases p with
    | nil => cases v <;> rfl
    | cons c p =>
      have hcheck : (c :: p).isPrefixOf (c :: (p ++ v)) = true :=
        List.isPrefixOf_iff_prefix.mpr (List.prefix_append (c :: p) v)
      rw [List.nil_append, List.cons_append]
      unfold splitOnce
      rw [hcheck, if_pos rfl, ← List.cons_append, hdrop]
  | cons c u ih =>
    have hno : ¬ p <+: c :: u ++ p ++ v := by
      rw [prefix_append_self_iff]
      exact h (c :: u) List.suffix_rfl (List.cons_ne_nil _ _)
    have hcheck : p.isPrefixOf (c :: (u ++ p ++ v)) = false :=
      Bool.eq_false_iff.mpr fun hpre => hno (List.isPrefixOf_iff_prefix.mp hpre)
    rw [List.cons_append, List.cons_append]
    unfold splitOnce
    rw [hcheck, ih h.of_cons]
    rfl

theorem firstBehind_of_splitOnce {p t u v : Text} (h : splitOnce p t = some (u, v)) :
    FirstBehind p u := by
  induction t generalizing u with
  | nil =>
    unfold splitOnce at h
    split at h
    · cases h
      exact .nil p
    · cases h
  | cons c t ih =>
    unfold splitOnce at h
    split at h
    · cases h
      exact .nil p
    · rename_i hno
      obtain ⟨⟨u', v'⟩, hsplit, heq⟩ := Option.map_eq_some_iff.mp h
      cases heq
      have ht := eq_of_splitOnce hsplit
      intro s hs hne
      rcases List.suffix_cons_iff.mp hs with rfl | hs
      · intro hpre
        apply hno
        rw [List.isPrefixOf_iff_prefix, ht]
        exact (prefix_append_self_iff p (c :: u') v).mpr hpre
      · exact ih hsplit s hs hne

/-- A text is split at the first place where the pattern begins. -/
theorem splitOnce_eq_some_iff {p t u v : Text} :
    splitOnce p t = some (u, v) ↔ t = u ++ p ++ v ∧ FirstBehind p u := by
  constructor
  · intro h
    exact ⟨eq_of_splitOnce h, firstBehind_of_splitOnce h⟩
  · rintro ⟨rfl, h⟩
    exact splitOnce_of_firstBehind h v

theorem splitOnce_eq_none_iff {p t : Text} : splitOnce p t = none ↔ ¬ p <:+: t := by
  induction t with
  | nil =>
    unfold splitOnce
    rw [List.infix_nil]
    cases p with
    | nil => simp
    | cons c p => simp
  | cons c t ih =>
    unfold splitOnce
    rw [List.infix_cons_iff, ← List.isPrefixOf_iff_prefix]
    split
    · rename_i h
      simp [h]
    · rename_i h
      rw [Option.map_eq_none_iff, ih]
      simp [h]

/-- A pattern that starts with a character the text does not have begins nowhere inside it. -/
theorem FirstBehind.of_not_mem {p u : Text} {c : Char} (hp : p.head? = some c) (hu : c ∉ u) :
    FirstBehind p u := by
  intro s hs hne hpre
  obtain ⟨d, s, rfl⟩ := List.exists_cons_of_ne_nil hne
  cases p with
  | nil => cases hp
  | cons e p =>
    obtain rfl : e = c := by simpa using hp
    obtain rfl : e = d := (List.cons_prefix_cons.mp hpre).1
    exact hu (hs.subset (List.mem_cons_self ..))

/-- Wherever one pattern begins in a text with the given continuation, the other one follows. -/
def Follows (p q t k : Text) : Prop := ∀ s, s <:+ t → s ≠ [] → p <+: s ++ k → p ++ q <+: s ++ k

@[simp] theorem follows_nil (p q k : Text) : Follows p q [] k :=
  fun _ hs hne => (hne (List.suffix_nil.mp hs)).elim

theorem follows_cons {p q t k : Text} {c : Char} :
    Follows p q (c :: t) k ↔ (p <+: c :: (t ++ k) → p ++ q <+: c :: (t ++ k)) ∧ Follows p q t k := by
  constructor
  · intro h
    refine ⟨h (c :: t) List.suffix_rfl (List.cons_ne_nil _ _), fun s hs => ?_⟩
    exact h s (hs.trans (List.suffix_cons c t))
  · rintro ⟨hhead, htail⟩ s hs hne
    rcases List.suffix_cons_iff.mp hs with rfl | hs
    · exact hhead
    · exact htail s hs hne

/-- The places of two texts in a row are those of the first and those of the second. -/
theorem follows_append {p q a b k : Text} :
    Follows p q (a ++ b) k ↔ Follows p q a (b ++ k) ∧ Follows p q b k := by
  induction a with
  | nil => simp
  | cons c a ih => rw [List.cons_append, follows_cons, follows_cons, ih, List.append_assoc, and_assoc]

/-- A text none of whose characters starts the pattern has no place for it. -/
theorem follows_of_not_mem {p t : Text} {c : Char} (hp : p.head? = some c) (ht : c ∉ t)
    (q k : Text) : Follows p q t k := by
  intro s hs hne hpre
  obtain ⟨d, s, rfl⟩ := List.exists_cons_of_ne_nil hne
  cases p with
  | nil => cases hp
  | cons e p =>
    obtain rfl : e = c := by simpa using hp
    obtain rfl : e = d := (List.cons_prefix_cons.mp hpre).1
    exact (ht (hs.subset (List.mem_cons_self ..))).elim

/-- No end of the pattern agrees with the start of the text. -/
def Blunt (p s : Text) : Prop := ∀ y ∈ p.tails, y ≠ [] → ¬ y <+: s ∧ ¬ s <+: y

instance (p s : Text) : Decidable (Blunt p s) :=
  inferInstanceAs (Decidable (∀ y ∈ p.tails, y ≠ [] → ¬ y <+: s ∧ ¬ s <+: y))

/-- A text no end of which agrees with the start of the pattern has no place for it. -/
theorem Blunt.follows {a p : Text} (h : Blunt a p) (q k : Text) : Follows p q a k := by
  intro s hs hne hpre
  obtain ⟨hno, hno'⟩ := h s ((List.mem_tails s a).mpr hs) hne
  rcases List.prefix_or_prefix_of_prefix hpre (List.prefix_append s k) with hbad | hbad
  · exact (hno' hbad).elim
  · exact (hno hbad).elim

/-- A pattern that reaches a text no end of it agrees with ends before the text. -/
theorem Blunt.prefix_append_iff {p s : Text} (h : Blunt p s) (x k : Text) :
    p <+: x ++ (s ++ k) ↔ p <+: x := by
  constructor
  · intro hpre
    by_contra hnot
    rcases List.prefix_or_prefix_of_prefix hpre (List.prefix_append x (s ++ k)) with hx | ⟨y, hy⟩
    · exact hnot hx
    · have hne : y ≠ [] := by
        rintro rfl
        rw [List.append_nil] at hy
        exact hnot (hy ▸ List.prefix_rfl)
      have hys : y <+: s ++ k := by
        rw [← hy] at hpre
        exact (List.prefix_append_right_inj x).mp hpre
      obtain ⟨hno, hno'⟩ := h y ((List.mem_tails y p).mpr ⟨x, hy⟩) hne
      rcases List.prefix_or_prefix_of_prefix hys (List.prefix_append s k) with hbad | hbad
      · exact hno hbad
      · exact hno' hbad
  · intro hpre
    exact hpre.trans (List.prefix_append _ _)

/-- Where no pattern reaches the continuation, the continuation decides nothing. -/
theorem follows_append_right_iff {p q s : Text} (hp : Blunt p s) (hpq : Blunt (p ++ q) s)
    (t k : Text) : Follows p q t (s ++ k) ↔ Follows p q t [] := by
  simp only [Follows, hp.prefix_append_iff, hpq.prefix_append_iff, List.append_nil]

end Ezer.Lib
