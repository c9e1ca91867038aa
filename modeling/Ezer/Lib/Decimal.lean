import Ezer.Lib.Lines
import Mathlib.Algebra.GroupWithZero.Nat

/-!
# Decimal numbers

The decimal digits of a number, and the numbers below a bound that are read
from decimal digits.
-/

namespace Ezer.Lib

/-- The number of values of an unsigned machine word. -/
def usizeCount : ℕ := 2 ^ 64

/-- The decimal digits of a number. -/
def digits (n : ℕ) : Text := Nat.toDigits 10 n

/-- A machine word read from decimal digits, possibly after a plus sign. -/
def parseUsize (t : Text) : Option ℕ :=
  let ds := if t.head? = some '+' then t.tail else t
  if ds.isEmpty || !ds.all Char.isDigit then none
  else
    let n := Nat.ofDigitChars 10 ds 0
    if n < usizeCount then some n else none

theorem isDigit_of_mem_digits {n : ℕ} {c : Char} (h : c ∈ digits n) : c.isDigit = true :=
  Nat.isDigit_of_mem_toDigits (by decide) (by decide) h

theorem digits_ne_nil (n : ℕ) : digits n ≠ [] := Nat.toDigits_ne_nil

theorem head?_digits_ne_plus (n : ℕ) : (digits n).head? ≠ some '+' := by
  intro h
  have hdigit := isDigit_of_mem_digits (List.mem_of_mem_head? h)
  cases hdigit

/-- A machine word is read back from its digits. -/
theorem parseUsize_digits {n : ℕ} (h : n < usizeCount) : parseUsize (digits n) = some n := by
  have hall : (digits n).all Char.isDigit = true :=
    List.all_eq_true.mpr fun c hc => isDigit_of_mem_digits hc
  have hempty : (digits n).isEmpty = false := by
    rw [List.isEmpty_eq_false_iff]
    exact digits_ne_nil n
  have hvalue : Nat.ofDigitChars 10 (digits n) 0 = n := Nat.ofDigitChars_ten_toDigits
  unfold parseUsize
  rw [if_neg (head?_digits_ne_plus n)]
  simp [hempty, hall, hvalue, h]

end Ezer.Lib
