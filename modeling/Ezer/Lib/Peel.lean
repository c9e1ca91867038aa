import Mathlib.Order.WellFounded

/-!
# Peeling layers to a fixed point

A partial function takes one layer off a value. Its layers can be taken off to
the end, where nothing more comes off, or only up to a bound. The two agree
exactly when the bounded result has no layer left.
-/

namespace Ezer.Lib

section

variable {α : Type*} (peel : α → Option α)

/-- What remains of a value after some number of its layers came off. -/
def Peels : α → α → Prop := Relation.ReflTransGen fun outer inner => peel outer = some inner

/-- A value without at most the given number of its layers. -/
def peelUpTo : ℕ → α → α
  | 0, outer => outer
  | n + 1, outer =>
    match peel outer with
    | some inner => peelUpTo n inner
    | none => outer

variable {peel}

theorem peelUpTo_of_none {outer : α} (h : peel outer = none) (n : ℕ) :
    peelUpTo peel n outer = outer := by
  cases n with
  | zero => rfl
  | succ n => simp only [peelUpTo, h]

theorem peelUpTo_succ_of_some {outer inner : α} (h : peel outer = some inner) (n : ℕ) :
    peelUpTo peel (n + 1) outer = peelUpTo peel n inner := by
  simp only [peelUpTo, h]

/-- Peeling up to a bound takes off layers only. -/
theorem peels_peelUpTo (n : ℕ) (outer : α) : Peels peel outer (peelUpTo peel n outer) := by
  induction n generalizing outer with
  | zero => exact Relation.ReflTransGen.refl
  | succ n ih =>
    cases h : peel outer with
    | none => rw [peelUpTo_of_none h]; exact Relation.ReflTransGen.refl
    | some inner =>
      rw [peelUpTo_succ_of_some h]
      exact Relation.ReflTransGen.head h (ih inner)

/-- A value nothing comes off is all that remains of itself. -/
theorem Peels.eq_of_none {outer inner : α} (h : Peels peel outer inner)
    (houter : peel outer = none) : inner = outer := by
  cases Relation.ReflTransGen.cases_head h with
  | inl heq => exact heq.symm
  | inr hstep =>
    obtain ⟨next, hnext, _⟩ := hstep
    rw [houter] at hnext
    contradiction

/-- Taking off every layer has one result. -/
theorem Peels.unique {outer first second : α} (hfirst : Peels peel outer first)
    (hdone : peel first = none) (hsecond : Peels peel outer second)
    (hdone' : peel second = none) : first = second := by
  induction hfirst using Relation.ReflTransGen.head_induction_on with
  | refl => exact (hsecond.eq_of_none hdone).symm
  | @head outer next hnext _ ih =>
    apply ih
    cases Relation.ReflTransGen.cases_head hsecond with
    | inl heq =>
      rw [heq, hdone'] at hnext
      contradiction
    | inr hstep =>
      obtain ⟨other, hother, hrest⟩ := hstep
      rw [hnext, Option.some.injEq] at hother
      rw [hother]
      exact hrest

/-- A bounded result with no layer left is the full result. -/
theorem Peels.eq_peelUpTo {outer inner : α} {n : ℕ} (h : Peels peel outer inner)
    (hinner : peel inner = none) (hdone : peel (peelUpTo peel n outer) = none) :
    inner = peelUpTo peel n outer :=
  h.unique hinner (peels_peelUpTo n outer) hdone

/-- Where every layer makes the value smaller, all of its layers come off. -/
theorem exists_peels_none (size : α → ℕ)
    (hsize : ∀ outer inner, peel outer = some inner → size inner < size outer) (outer : α) :
    ∃ inner, Peels peel outer inner ∧ peel inner = none := by
  induction hn : size outer using Nat.strong_induction_on generalizing outer with
  | _ n ih =>
    cases h : peel outer with
    | none => exact ⟨outer, Relation.ReflTransGen.refl, h⟩
    | some next =>
      obtain ⟨inner, hpeels, hdone⟩ := ih (size next) (hn ▸ hsize outer next h) next rfl
      exact ⟨inner, Relation.ReflTransGen.head h hpeels, hdone⟩

end

end Ezer.Lib
