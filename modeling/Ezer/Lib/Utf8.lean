import Ezer.Lib.Lines

/-!
# UTF-8

The bytes of a text, and the text of bytes that may not be UTF-8: a maximal
start of an encoded character that is cut short is read as a replacement
character.
-/

namespace Ezer.Lib

/-- The UTF-8 encoding of a text. -/
def encodeUtf8 (t : Text) : List UInt8 := t.flatMap String.utf8EncodeChar

/-- The replacement character. -/
def replacementChar : Char := Char.ofNat 0xFFFD

/-- The bytes that may follow the first byte of an encoded character: the bounds of the
second byte, and how many further bytes there are. -/
def utf8Sequence (b : UInt8) : Option (UInt8 × UInt8 × ℕ) :=
  if 0xC2 ≤ b ∧ b ≤ 0xDF then some (0x80, 0xBF, 0)
  else if b = 0xE0 then some (0xA0, 0xBF, 1)
  else if b = 0xED then some (0x80, 0x9F, 1)
  else if 0xE1 ≤ b ∧ b ≤ 0xEF then some (0x80, 0xBF, 1)
  else if b = 0xF0 then some (0x90, 0xBF, 2)
  else if 0xF1 ≤ b ∧ b ≤ 0xF3 then some (0x80, 0xBF, 2)
  else if b = 0xF4 then some (0x80, 0x8F, 2)
  else none

/-- The bits that a first byte gives to its character, by the number of bytes after the
second. -/
def utf8Lead (b : UInt8) (more : ℕ) : ℕ :=
  b.toNat % (if more = 0 then 32 else if more = 1 then 16 else 8)

/-- Read further bytes of a character. -/
def utf8More : ℕ → ℕ → List UInt8 → Char × List UInt8
  | 0, code, rest => (Char.ofNat code, rest)
  | more + 1, code, b :: rest =>
    if 0x80 ≤ b ∧ b ≤ 0xBF then utf8More more (code * 64 + b.toNat % 64) rest
    else (replacementChar, b :: rest)
  | _ + 1, _, [] => (replacementChar, [])

/-- Read the first character of some bytes. -/
def utf8Next (b : UInt8) (rest : List UInt8) : Char × List UInt8 :=
  if b < 0x80 then (Char.ofNat b.toNat, rest)
  else
    match utf8Sequence b, rest with
    | some (low, high, more), c :: rest =>
      if low ≤ c ∧ c ≤ high then
        utf8More more (utf8Lead b more * 64 + c.toNat % 64) rest
      else (replacementChar, c :: rest)
    | _, rest => (replacementChar, rest)

/-- Read some bytes, at most as many characters as there are bytes. -/
def utf8Chars : ℕ → List UInt8 → Text
  | 0, _ => []
  | _ + 1, [] => []
  | fuel + 1, b :: rest =>
    let (c, rest) := utf8Next b rest
    c :: utf8Chars fuel rest

/-- The text of bytes that may not be UTF-8. -/
def fromUtf8Lossy (bytes : List UInt8) : Text := utf8Chars bytes.length bytes

end Ezer.Lib
