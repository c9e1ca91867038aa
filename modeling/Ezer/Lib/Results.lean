import Mathlib.Init

/-!
# Computations that can fail

What is known of the parts of a computation that succeeds.
-/

namespace Ezer.Lib

variable {ε α β : Type*}

/-- Both parts of a computation that succeeds succeed. -/
theorem ok_of_bind {x : Except ε α} {f : α → Except ε β} {b : β} (h : x.bind f = .ok b) :
    ∃ a, x = .ok a ∧ f a = .ok b := by
  cases x with
  | error e => cases h
  | ok a => exact ⟨a, rfl, h⟩

/-- What a result is made from. -/
theorem ok_of_map {x : Except ε α} {f : α → β} {b : β} (h : x.map f = .ok b) :
    ∃ a, x = .ok a ∧ f a = b := by
  cases x with
  | error e => cases h
  | ok a => exact ⟨a, rfl, Except.ok.inj h⟩

end Ezer.Lib
