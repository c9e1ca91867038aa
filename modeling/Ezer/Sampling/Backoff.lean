import Ezer.Lib.Decimal
import Mathlib.Order.MinMax

/-!
# Backoff between retries

The delay before a retry: it doubles with every retry up to a bound, and a hash
decides how far around that the client really waits. All times are in
milliseconds and all arithmetic is that of 64-bit words.
-/

namespace Ezer.Sampling

open Ezer.Lib

/-- The longest delay before jitter. -/
def maxRetryBackoff : ℕ := 30000

/-- A word shifted left, if it is shifted by fewer places than it has. What is shifted out is lost. -/
def checkedShl (word shift : ℕ) : Option ℕ :=
  if shift < 64 then some (word * 2 ^ shift % usizeCount) else none

/-- The sum of two words, if it is one. -/
def checkedAdd (a b : ℕ) : Option ℕ := if a + b < usizeCount then some (a + b) else none

/-- The difference of two words, if it is one. -/
def checkedSub (a b : ℕ) : Option ℕ := if b ≤ a then some (a - b) else none

/-- The product of two words, if it is one. -/
def checkedMul (a b : ℕ) : Option ℕ := if a * b < usizeCount then some (a * b) else none

/-- A delay with jitter of up to a fifth, if no operation overflows. -/
def jitterBackoff (base : ℕ) (hash : UInt64) : Option ℕ := do
  let jitterRange := base / 5
  let span ← checkedAdd (← checkedMul jitterRange 2) 1
  let jitter := hash.toNat % span
  checkedAdd (← checkedSub base jitterRange) jitter

/-- The delay before a retry without jitter. -/
def baseMs (retryCount : UInt32) : ℕ :=
  let shift := retryCount.toNat - 1
  min ((checkedShl 2000 shift).getD (usizeCount - 1)) maxRetryBackoff

/-- The delay before a retry. -/
def retryBackoffWithJitter (retryCount : UInt32) (hash : UInt64) : Option ℕ :=
  jitterBackoff (baseMs retryCount) hash

/-- The delay before a retry when the server may have named one in seconds. -/
def retryAfterOrBackoff (attempt : UInt32) (retryAfterSecs : Option UInt64) (hash : UInt64) :
    Option ℕ :=
  match retryAfterSecs.filter (0 < ·) with
  | some secs => jitterBackoff (min (secs.toNat * 1000) maxRetryBackoff) hash
  | none => retryBackoffWithJitter attempt hash

/-- The delay that doubles with every retry up to the bound. -/
def exponentialMs (retryCount : UInt32) : ℕ :=
  min (2000 * 2 ^ (retryCount.toNat - 1)) maxRetryBackoff

/-- A delay is at most a fifth away from another one. -/
def WithinFifth (base delay : ℕ) : Prop := 4 * base ≤ 5 * delay ∧ 5 * delay ≤ 6 * base

section Jitter

variable {base : ℕ}

/-- No operation on a bounded delay overflows, and jitter takes it a fifth away at most. -/
theorem jitterBackoff_within (h : base ≤ maxRetryBackoff) (hash : UInt64) :
    ∃ delay, jitterBackoff base hash = some delay ∧ WithinFifth base delay := by
  have hbound : maxRetryBackoff = 30000 := rfl
  have hwords : usizeCount = 2 ^ 64 := rfl
  have hmul : checkedMul (base / 5) 2 = some (base / 5 * 2) := if_pos (by omega)
  have hspan : checkedAdd (base / 5 * 2) 1 = some (base / 5 * 2 + 1) := if_pos (by omega)
  have hsub : checkedSub base (base / 5) = some (base - base / 5) :=
    if_pos (Nat.div_le_self base 5)
  have hjitter : hash.toNat % (base / 5 * 2 + 1) < base / 5 * 2 + 1 :=
    Nat.mod_lt _ (Nat.succ_pos _)
  have hadd : checkedAdd (base - base / 5) (hash.toNat % (base / 5 * 2 + 1)) =
      some (base - base / 5 + hash.toNat % (base / 5 * 2 + 1)) := if_pos (by omega)
  refine ⟨base - base / 5 + hash.toNat % (base / 5 * 2 + 1), ?_, ?_, ?_⟩
  · simp only [jitterBackoff, hmul, hspan, hsub, hadd, Option.bind_eq_bind, Option.bind_some]
  · omega
  · omega

theorem baseMs_le (retryCount : UInt32) : baseMs retryCount ≤ maxRetryBackoff :=
  Nat.min_le_right _ _

/-- The delay a server names is kept up to the bound. -/
theorem retryAfterOrBackoff_within (attempt : UInt32) {secs : UInt64} (h : 0 < secs)
    (hash : UInt64) :
    ∃ delay, retryAfterOrBackoff attempt (some secs) hash = some delay ∧
      WithinFifth (min (secs.toNat * 1000) maxRetryBackoff) delay := by
  have hsome : (some secs).filter (0 < ·) = some secs := by simpa using h
  rw [retryAfterOrBackoff, hsome]
  exact jitterBackoff_within (Nat.min_le_right _ _) hash

end Jitter

section Doubling

/-- The shifts at which every bit of the first delay is lost, and at no other one is the bound
missed. -/
theorem shifted_eq : ∀ shift < 64,
    min (2000 * 2 ^ shift % usizeCount) maxRetryBackoff =
      if shift < 60 then min (2000 * 2 ^ shift) maxRetryBackoff else 0 := by
  decide +kernel

theorem bounded_of_le {shift : ℕ} (h : 4 ≤ shift) :
    min (2000 * 2 ^ shift) maxRetryBackoff = maxRetryBackoff := by
  have hpow : 2 ^ 4 ≤ 2 ^ shift := Nat.pow_le_pow_right (by decide) h
  have hbound : maxRetryBackoff = 30000 := rfl
  exact Nat.min_eq_right (by omega)

/-- The delay is the doubled one, but for four retries it is none. -/
theorem baseMs_eq (retryCount : UInt32) :
    baseMs retryCount =
      if 61 ≤ retryCount.toNat ∧ retryCount.toNat ≤ 64 then 0 else exponentialMs retryCount := by
  unfold baseMs exponentialMs checkedShl
  dsimp only
  by_cases hshift : retryCount.toNat - 1 < 64
  · rw [if_pos hshift, Option.getD_some, shifted_eq _ hshift]
    by_cases hlost : retryCount.toNat - 1 < 60
    · rw [if_pos hlost, if_neg (by omega)]
    · rw [if_neg hlost, if_pos (by omega)]
  · rw [if_neg hshift, Option.getD_none, bounded_of_le (by omega), if_neg (by omega)]
    rfl

theorem exponentialMs_mono {m n : UInt32} (h : m ≤ n) : exponentialMs m ≤ exponentialMs n := by
  have hle : m.toNat - 1 ≤ n.toNat - 1 := Nat.sub_le_sub_right (UInt32.le_iff_toNat_le.mp h) 1
  have hpow : 2 ^ (m.toNat - 1) ≤ 2 ^ (n.toNat - 1) := Nat.pow_le_pow_right (by decide) hle
  exact min_le_min_right _ (Nat.mul_le_mul_left 2000 hpow)

theorem exponentialMs_pos (retryCount : UInt32) : 2000 ≤ exponentialMs retryCount := by
  have hpow : 1 ≤ 2 ^ (retryCount.toNat - 1) := Nat.one_le_two_pow
  have hbound : maxRetryBackoff = 30000 := rfl
  exact le_min (by omega) (by omega)

end Doubling

/-- The delay before a retry is close to the doubled one whatever the hash, and without jitter it
is no less than before the earlier retries. -/
structure BacksOff (retryCount : UInt32) : Prop where
  within : ∀ hash, ∃ delay, retryBackoffWithJitter retryCount hash = some delay ∧
    WithinFifth (exponentialMs retryCount) delay
  never_less : ∀ earlier ≤ retryCount, baseMs earlier ≤ baseMs retryCount

/-- Every retry backs off except four that do not wait at all. -/
theorem backsOff_iff (retryCount : UInt32) :
    BacksOff retryCount ↔ ¬(61 ≤ retryCount.toNat ∧ retryCount.toNat ≤ 64) := by
  have heq := baseMs_eq retryCount
  constructor
  · intro h hlost
    rw [if_pos hlost] at heq
    -- Any hash shows it: there is no jitter around no delay.
    obtain ⟨delay, hdelay, hlow, -⟩ := h.within 0
    have hzero : retryBackoffWithJitter retryCount 0 = some 0 := by
      rw [retryBackoffWithJitter, heq]
      rfl
    obtain rfl : 0 = delay := Option.some.inj (hzero.symm.trans hdelay)
    have hpos := exponentialMs_pos retryCount
    omega
  · intro hkept
    rw [if_neg hkept] at heq
    refine ⟨fun hash => ?_, fun earlier hle => ?_⟩
    · rw [retryBackoffWithJitter, ← heq]
      exact jitterBackoff_within (baseMs_le retryCount) hash
    · have hmono := exponentialMs_mono hle
      have hearlier := baseMs_eq earlier
      split at hearlier
      · rw [hearlier]
        exact Nat.zero_le _
      · rw [hearlier, heq]
        exact hmono

/-- The sixty-first retry is made without a delay. -/
theorem not_backsOff : ¬ BacksOff 61 := by
  intro h
  obtain ⟨delay, hdelay, hlow, -⟩ := h.within 7
  have hzero : retryBackoffWithJitter 61 7 = some 0 := by decide +kernel
  obtain rfl : 0 = delay := Option.some.inj (hzero.symm.trans hdelay)
  revert hlow
  decide +kernel

end Ezer.Sampling
