import Mathlib.Order.Lattice

/-!
# The strongest of several answers

Answers have a rank, and no answer is weaker than any. Combining two answers
keeps the stronger one, so the rank of what many answers combine to is the
highest of theirs and depends neither on their order nor on repetitions.
-/

namespace Ezer.Lib

section

variable {α β : Type*} (rank : α → ℕ)

/-- The rank of an answer that may be missing. -/
def optionRank : Option α → ℕ
  | none => 0
  | some a => rank a

/-- The stronger of two answers; the first one if they are equally strong. -/
def stronger : Option α → Option α → Option α
  | none, other => other
  | some a, none => some a
  | some a, some b => some (if rank b ≤ rank a then a else b)

/-- The strongest of the answers for the members of a list, and of one given first. -/
def strongestOf (first : Option α) (answer : β → Option α) (xs : List β) : Option α :=
  xs.foldl (fun found x => stronger rank found (answer x)) first

variable {rank}

@[simp] theorem optionRank_none : optionRank rank none = 0 := rfl

@[simp] theorem optionRank_some (a : α) : optionRank rank (some a) = rank a := rfl

/-- Combining keeps the higher rank. -/
@[simp] theorem optionRank_stronger (a b : Option α) :
    optionRank rank (stronger rank a b) = max (optionRank rank a) (optionRank rank b) := by
  cases a with
  | none => simp [stronger]
  | some a =>
    cases b with
    | none => simp [stronger]
    | some b =>
      simp only [stronger, optionRank_some]
      split
      · rename_i h
        exact (max_eq_left h).symm
      · rename_i h
        exact (max_eq_right (Nat.le_of_not_le h)).symm

/-- The strongest answer is as weak as a bound exactly when every answer is. -/
theorem optionRank_strongestOf_le_iff {first : Option α} {answer : β → Option α} {xs : List β}
    {bound : ℕ} :
    optionRank rank (strongestOf rank first answer xs) ≤ bound ↔
      optionRank rank first ≤ bound ∧ ∀ x ∈ xs, optionRank rank (answer x) ≤ bound := by
  unfold strongestOf
  induction xs generalizing first with
  | nil => simp
  | cons x xs ih =>
    rw [List.foldl_cons, ih, optionRank_stronger, Nat.max_le, List.forall_mem_cons, and_assoc]

theorem le_optionRank_strongestOf {first : Option α} {answer : β → Option α} {xs : List β} {x : β}
    (h : x ∈ xs) :
    optionRank rank (answer x) ≤ optionRank rank (strongestOf rank first answer xs) :=
  (optionRank_strongestOf_le_iff.mp le_rfl).2 x h

theorem first_le_optionRank_strongestOf (first : Option α) (answer : β → Option α) (xs : List β) :
    optionRank rank first ≤ optionRank rank (strongestOf rank first answer xs) :=
  (optionRank_strongestOf_le_iff.mp le_rfl).1

/-- More and stronger answers have a stronger strongest one. -/
theorem optionRank_strongestOf_mono {first first' : Option α} {answer answer' : β → Option α}
    {xs xs' : List β} (hfirst : optionRank rank first ≤ optionRank rank first')
    (hmem : xs ⊆ xs') (hanswer : ∀ x ∈ xs, optionRank rank (answer x) ≤ optionRank rank (answer' x)) :
    optionRank rank (strongestOf rank first answer xs) ≤
      optionRank rank (strongestOf rank first' answer' xs') := by
  apply optionRank_strongestOf_le_iff.mpr
  constructor
  · exact hfirst.trans (first_le_optionRank_strongestOf first' answer' xs')
  · intro x hx
    exact (hanswer x hx).trans (le_optionRank_strongestOf (hmem hx))

end

end Ezer.Lib
