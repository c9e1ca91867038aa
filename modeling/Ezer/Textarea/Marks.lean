import Ezer.Textarea.Editor

/-!
# A segmentation

Every character is a grapheme, but a mark belongs to the character before it, and a line
break is one grapheme.
-/

namespace Ezer.Textarea

open Lib

/-- A mark that combines with the character before it. -/
def isMark (c : Char) : Bool := decide (0x300 ≤ c.toNat) && decide (c.toNat < 0x370)

/-- Whether a grapheme ends between two characters. -/
def endsBetween : Option Char → Option Char → Bool
  | some c, some d =>
    if c = '\r' ∧ d = '\n' then false else if c = '\r' ∨ c = '\n' then true else !isMark d
  | _, _ => true

/-- Whether a grapheme ends at an offset. -/
def endsAt (t : Text) (n : ℕ) : Bool :=
  match splitBytes n t with
  | none => false
  | some (u, v) => endsBetween u.getLast? v.head?

theorem endsBetween_none (c : Option Char) : endsBetween c none = true := by
  cases c with
  | none => rfl
  | some c => rfl

theorem endsAt_append (u v : Text) :
    endsAt (u ++ v) (byteLen u) = endsBetween u.getLast? v.head? := by
  rw [endsAt, splitBytes_append]

theorem endsAt_behind (u : Text) {c : Char} (v : Text) (hc : c.utf8Size = 1) :
    endsAt (u ++ c :: v) (byteLen u + 1) = endsBetween (some c) v.head? := by
  have hsize : byteLen (u ++ [c]) = byteLen u + 1 := by
    rw [byteLen_append, byteLen_cons, byteLen_nil, hc]
  have h := endsAt_append (u ++ [c]) v
  rw [List.append_assoc, List.singleton_append, hsize, List.getLast?_concat] at h
  exact h

/-- The segmentation. -/
def marks : Unicode where
  isBoundary := endsAt
  zero t := by
    rw [endsAt, splitBytes]
    rfl
  last t := by
    have h := endsAt_append t []
    rw [List.append_nil] at h
    exact h.trans (endsBetween_none _)
  char t n h := by
    rw [endsAt] at h
    split at h
    · cases h
    · exact ⟨_, _, ‹_›⟩
  behindLineFeed u v := by
    rw [endsAt_behind u v rfl]
    cases v with
    | nil => rfl
    | cons c v => rfl
  beforeLineFeed u v h := by
    rw [endsAt_append, List.head?_cons]
    cases hlast : u.getLast? with
    | none => rfl
    | some c =>
      have hc : c ≠ '\r' := fun heq => h (heq ▸ hlast)
      rw [endsBetween, if_neg fun hboth => hc hboth.1]
      split
      · rfl
      · rfl
  beforeReturn u v := by
    rw [endsAt_append, List.head?_cons]
    cases u.getLast? with
    | none => rfl
    | some c =>
      rw [endsBetween, if_neg (by simp)]
      split
      · rfl
      · rfl
  insideLineBreak u v := endsAt_behind u ('\n' :: v) rfl
  isAlphanumeric := Char.isAlphanum

end Ezer.Textarea
