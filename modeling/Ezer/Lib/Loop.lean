import Mathlib.Data.Nat.Basic

/-!
# Loops that are left

The body of a loop either goes on with another value or leaves the loop with a
last one. Where every round makes the value smaller the loop is left, and what
all rounds keep holds of the value that was left with.
-/

namespace Ezer.Lib

section

variable {α : Type*} (body : α → ForInStep α)

/-- The value a loop is left with, if it is left within so many rounds. -/
def whileLoop : ℕ → α → Option α
  | 0, _ => none
  | rounds + 1, a =>
    match body a with
    | .yield next => whileLoop rounds next
    | .done last => some last

variable {body}

theorem whileLoop_of_done {a last : α} (h : body a = .done last) (rounds : ℕ) :
    whileLoop body (rounds + 1) a = some last := by
  simp only [whileLoop, h]

theorem whileLoop_of_yield {a next : α} (h : body a = .yield next) (rounds : ℕ) :
    whileLoop body (rounds + 1) a = whileLoop body rounds next := by
  simp only [whileLoop, h]

/-- A loop whose rounds keep an invariant and make its value smaller is left, where the invariant
still holds, and more rounds leave it the same way. -/
theorem exists_whileLoop_of_invariant (Inv : α → Prop) (size : α → ℕ)
    (hround : ∀ a next, Inv a → body a = .yield next → Inv next ∧ size next < size a) {a : α}
    (ha : Inv a) :
    ∃ before last, Inv before ∧ body before = .done last ∧
      ∀ rounds, size a < rounds → whileLoop body rounds a = some last := by
  induction hn : size a using Nat.strong_induction_on generalizing a with
  | _ n ih =>
    subst hn
    cases h : body a with
    | done last =>
      refine ⟨a, last, ha, h, fun rounds hrounds => ?_⟩
      obtain ⟨rounds, rfl⟩ := Nat.exists_eq_add_of_lt (Nat.zero_lt_of_lt hrounds)
      rw [Nat.zero_add]
      exact whileLoop_of_done h rounds
    | yield next =>
      obtain ⟨hnext, hlt⟩ := hround a next ha h
      obtain ⟨before, last, hbefore, hlast, hall⟩ := ih (size next) hlt hnext rfl
      refine ⟨before, last, hbefore, hlast, fun rounds hrounds => ?_⟩
      obtain ⟨rounds, rfl⟩ := Nat.exists_eq_add_of_lt (Nat.zero_lt_of_lt hrounds)
      rw [Nat.zero_add, whileLoop_of_yield h]
      exact hall rounds (by omega)

/-- A loop that makes its value smaller is left, and more rounds leave it the same way. -/
theorem exists_whileLoop (size : α → ℕ)
    (hsize : ∀ a next, body a = .yield next → size next < size a) (a : α) :
    ∃ last, ∀ rounds, size a < rounds → whileLoop body rounds a = some last := by
  obtain ⟨-, last, -, -, hlast⟩ := exists_whileLoop_of_invariant (fun _ => True) size
    (fun a next _ h => ⟨trivial, hsize a next h⟩) (a := a) trivial
  exact ⟨last, hlast⟩

/-- What every round keeps holds where the loop is left. -/
theorem whileLoop_invariant (Inv : α → Prop)
    (hround : ∀ a next, Inv a → body a = .yield next → Inv next) {rounds : ℕ} {a last : α}
    (h : whileLoop body rounds a = some last) (ha : Inv a) :
    ∃ before, Inv before ∧ body before = .done last := by
  induction rounds generalizing a with
  | zero => cases h
  | succ rounds ih =>
    cases hbody : body a with
    | done last' =>
      rw [whileLoop_of_done hbody] at h
      cases h
      exact ⟨a, ha, hbody⟩
    | yield next =>
      rw [whileLoop_of_yield hbody] at h
      exact ih h (hround a next ha hbody)

/-- A loop whose rounds go the same way on other values is left with the same one. -/
theorem whileLoop_map {β : Type*} {other : β → ForInStep β} (f : α → β)
    (hdone : ∀ a last, body a = .done last → other (f a) = .done (f last))
    (hyield : ∀ a next, body a = .yield next → other (f a) = .yield (f next)) (rounds : ℕ) (a : α) :
    whileLoop other rounds (f a) = (whileLoop body rounds a).map f := by
  induction rounds generalizing a with
  | zero => rfl
  | succ rounds ih =>
    cases h : body a with
    | done last =>
      rw [whileLoop_of_done h, whileLoop_of_done (hdone a last h)]
      rfl
    | yield next =>
      rw [whileLoop_of_yield h, whileLoop_of_yield (hyield a next h)]
      exact ih next

end

end Ezer.Lib
