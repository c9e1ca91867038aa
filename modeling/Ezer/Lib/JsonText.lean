import Ezer.Lib.Decimal
import Ezer.Lib.Json
import Ezer.Lib.Slices

/-!
# Written JSON

How strings and arrays are written as JSON, and how many bytes that takes: the
bytes of a string are those of its characters, one by one, and the bytes of an
array those of its elements and of the commas between them.
-/

namespace Ezer.Lib

/-- A hexadecimal digit. -/
def hexDigit (n : ℕ) : Char := if n < 10 then Char.ofNat (48 + n) else Char.ofNat (87 + n)

/-- A character as it is written in a JSON string. -/
def escapeChar (c : Char) : Text :=
  if c = '"' then ['\\', '"']
  else if c = '\\' then ['\\', '\\']
  else if c.toNat = 8 then ['\\', 'b']
  else if c.toNat = 9 then ['\\', 't']
  else if c.toNat = 10 then ['\\', 'n']
  else if c.toNat = 12 then ['\\', 'f']
  else if c.toNat = 13 then ['\\', 'r']
  else if c.toNat < 32 then
    ['\\', 'u', '0', '0', hexDigit (c.toNat / 16), hexDigit (c.toNat % 16)]
  else [c]

/-- A written JSON string. -/
def writeString (t : Text) : Text := ['"'] ++ t.flatMap escapeChar ++ ['"']

/-- Texts with commas in between. -/
def commaSeparated : List Text → Text
  | [] => []
  | [t] => t
  | t :: u :: ts => t ++ [','] ++ commaSeparated (u :: ts)

/-- A written JSON array. -/
def writeArray (elements : List Text) : Text := ['['] ++ commaSeparated elements ++ [']']

mutual

/-- A written JSON value. -/
def writeJson : Json → Text
  | .null => "null".toList
  | .bool value => if value then "true".toList else "false".toList
  | .number value => digits value
  | .otherNumber text => text.toList
  | .string text => writeString text.toList
  | .array values => writeArray (writeElements values)
  | .object fields => ['\x7b'] ++ commaSeparated (writeMembers fields) ++ ['\x7d']

/-- The written elements of an array. -/
def writeElements : List Json → List Text
  | [] => []
  | value :: values => writeJson value :: writeElements values

/-- The written fields of an object. -/
def writeMembers : List (String × Json) → List Text
  | [] => []
  | (name, value) :: fields =>
    (writeString name.toList ++ [':'] ++ writeJson value) :: writeMembers fields

end

/-- The bytes of a text in a written string, without the quotes. -/
def escapedBytes (t : Text) : ℕ := byteLen (t.flatMap escapeChar)

theorem byteLen_writeString (t : Text) : byteLen (writeString t) = escapedBytes t + 2 := by
  have hquote : byteLen ['"'] = 1 := rfl
  rw [writeString, byteLen_append, byteLen_append, hquote, escapedBytes]
  omega

@[simp] theorem escapedBytes_append (s t : Text) :
    escapedBytes (s ++ t) = escapedBytes s + escapedBytes t := by
  rw [escapedBytes, List.flatMap_append, byteLen_append]
  rfl

/-- Plain characters are written as they are. -/
theorem escapedBytes_of_plain {t : Text} (h : ∀ c ∈ t, escapeChar c = [c]) :
    escapedBytes t = byteLen t := by
  induction t with
  | nil => rfl
  | cons c t ih =>
    rw [List.forall_mem_cons] at h
    rw [escapedBytes, List.flatMap_cons, h.1, byteLen_append, ← escapedBytes, ih h.2]
    rfl

theorem byteLen_commaSeparated (elements : List Text) :
    byteLen (commaSeparated elements) =
      (elements.map byteLen).sum + (elements.length - 1) := by
  induction elements with
  | nil => rfl
  | cons t ts ih =>
    cases ts with
    | nil => rfl
    | cons u ts =>
      have hcomma : byteLen [','] = 1 := rfl
      rw [commaSeparated, byteLen_append, byteLen_append, ih, hcomma]
      simp only [List.map_cons, List.sum_cons, List.length_cons]
      omega

theorem byteLen_writeArray (elements : List Text) :
    byteLen (writeArray elements) =
      (elements.map byteLen).sum + (elements.length - 1) + 2 := by
  have hopen : byteLen ['['] = 1 := rfl
  have hclose : byteLen [']'] = 1 := rfl
  rw [writeArray, byteLen_append, byteLen_append, byteLen_commaSeparated, hopen, hclose]
  omega

/-- An element of an array is written in its own bytes. -/
theorem byteLen_writeArray_replace (before after : List Text) (s t : Text) :
    byteLen (writeArray (before ++ s :: after)) + byteLen t =
      byteLen (writeArray (before ++ t :: after)) + byteLen s := by
  simp only [byteLen_writeArray, List.map_append, List.map_cons, List.sum_append, List.sum_cons,
    List.length_append, List.length_cons]
  omega

/-- An element that is taken out of an array takes a comma along, unless it was the only one. -/
theorem byteLen_writeArray_remove (before after : List Text) (t : Text) :
    byteLen (writeArray (before ++ t :: after)) =
      byteLen (writeArray (before ++ after)) + byteLen t +
        if (before ++ after).isEmpty then 0 else 1 := by
  simp only [byteLen_writeArray, List.map_append, List.map_cons, List.sum_append, List.sum_cons,
    List.length_append, List.length_cons]
  cases hempty : before ++ after with
  | nil =>
    obtain ⟨rfl, rfl⟩ := List.append_eq_nil_iff.mp hempty
    simp only [List.length_nil, List.isEmpty_nil, if_true]
    omega
  | cons u us =>
    have hlength := congrArg List.length hempty
    rw [List.length_append, List.length_cons] at hlength
    simp only [List.isEmpty_cons, Bool.false_eq_true, if_false]
    omega

/-- The elements of an array with a comma each take no more bytes than the array. -/
theorem sum_le_byteLen_writeArray (elements : List Text) :
    (elements.map fun t => byteLen t + 1).sum ≤ byteLen (writeArray elements) := by
  have hsum : (elements.map fun t => byteLen t + 1).sum =
      (elements.map byteLen).sum + elements.length := by
    induction elements with
    | nil => rfl
    | cons t ts ih =>
      simp only [List.map_cons, List.sum_cons, List.length_cons]
      omega
  rw [byteLen_writeArray, hsum]
  omega

end Ezer.Lib
