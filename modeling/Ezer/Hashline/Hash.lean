import Ezer.Lib.Trim
import Ezer.Lib.Utf8

/-!
# Hashes of lines

A line is hashed without its surrounding white space and with each run of white
space within it as one space. A hash is written with a few lowercase letters.
-/

namespace Ezer.Hashline

open Ezer.Lib

/-- The offset basis of the hash. -/
def fnvOffset : UInt32 := 2166136261

/-- The prime of the hash. -/
def fnvPrime : UInt32 := 16777619

/-- Hash one more word. -/
def fnvStep (h word : UInt32) : UInt32 := (h ^^^ word) * fnvPrime

/-- The hash of some bytes. -/
def fnv1a32 (data : List UInt8) : UInt32 :=
  data.foldl (fun h byte => fnvStep h byte.toUInt32) fnvOffset

/-- The ASCII white space bytes. -/
def isAsciiWhitespace (b : UInt8) : Bool := b = 32 || b = 9 || b = 10 || b = 12 || b = 13

/-- Hash one more byte of a line, after white space or not. -/
def lineHashStep : UInt32 × Bool → UInt8 → UInt32 × Bool
  | (h, prevWs), byte =>
    if isAsciiWhitespace byte then
      if prevWs then (h, prevWs) else (fnvStep h 32, true)
    else (fnvStep h byte.toUInt32, false)

/-- The hash of a line. -/
def lineHash (line : Text) : UInt32 :=
  ((encodeUtf8 (trim line)).foldl lineHashStep (fnvOffset, false)).1

/-- The letter of one byte region of a hash. -/
def hashLetter (hash : UInt32) (i : ℕ) : Char :=
  Char.ofNat (((hash >>> UInt32.ofNat (i * 8)) % 26).toNat + 97)

/-- A hash as lowercase letters. -/
def encodeHash (hash : UInt32) (len : ℕ) : Text := (List.range len).map (hashLetter hash)

/-- Whether a character is a lowercase ASCII letter. -/
def isAsciiLowercase (c : Char) : Bool := 97 ≤ c.toNat && c.toNat ≤ 122

theorem isAsciiLowercase_hashLetter (hash : UInt32) (i : ℕ) :
    isAsciiLowercase (hashLetter hash i) = true := by
  have hlt : ((hash >>> UInt32.ofNat (i * 8)) % 26).toNat < 26 := by
    rw [UInt32.toNat_mod]
    exact Nat.mod_lt _ (by decide)
  have hvalid : Nat.isValidChar (((hash >>> UInt32.ofNat (i * 8)) % 26).toNat + 97) := by
    left
    omega
  have hcode : (hashLetter hash i).toNat =
      ((hash >>> UInt32.ofNat (i * 8)) % 26).toNat + 97 := by
    unfold hashLetter Char.ofNat
    rw [dif_pos hvalid]
    rfl
  unfold isAsciiLowercase
  rw [hcode]
  simp only [Bool.and_eq_true, decide_eq_true_eq]
  omega

theorem all_isAsciiLowercase_encodeHash (hash : UInt32) (len : ℕ) :
    (encodeHash hash len).all isAsciiLowercase = true := by
  rw [List.all_eq_true]
  intro c hc
  obtain ⟨i, -, rfl⟩ := List.mem_map.mp hc
  exact isAsciiLowercase_hashLetter hash i

theorem encodeHash_ne_nil (hash : UInt32) {len : ℕ} (h : 0 < len) : encodeHash hash len ≠ [] := by
  intro hnil
  have hlength := congrArg List.length hnil
  simp [encodeHash] at hlength
  omega

end Ezer.Hashline
