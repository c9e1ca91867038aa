import Mathlib.Algebra.GroupWithZero.Nat

/-!
# JSON values

JSON values and how records are read from them: from an object by the names of
their fields, or from an array by their places.
-/

namespace Ezer.Lib

/-- A JSON value; a number is a natural number or something else. -/
inductive Json where
  | null
  | bool (value : Bool)
  | number (value : ℕ)
  | otherNumber (text : String)
  | string (text : String)
  | array (values : List Json)
  | object (fields : List (String × Json))

namespace Json

/-- The value of a field of an object. -/
def get? (name : String) : Json → Option Json
  | .object fields => (fields.find? fun field => field.1 == name).map Prod.snd
  | _ => none

/-- The text of a value. -/
def asStr : Json → Option String
  | .string text => some text
  | _ => none

/-- The truth value of a value. -/
def asBool : Json → Option Bool
  | .bool value => some value
  | _ => none

/-- The 64-bit number of a value. -/
def asU64 : Json → Option UInt64
  | .number value => if value < 2 ^ 64 then some (UInt64.ofNat value) else none
  | _ => none

/-- The 32-bit number of a value. -/
def asU32 : Json → Option UInt32
  | .number value => if value < 2 ^ 32 then some (UInt32.ofNat value) else none
  | _ => none

/-- What may be absent. -/
def orNull {α : Type*} (encode : α → Json) : Option α → Json
  | some a => encode a
  | none => .null

/-- Read what may be absent. -/
def nullable {α : Type*} (decode : Json → Option α) : Json → Option (Option α)
  | .null => some none
  | json => (decode json).map some

@[simp] theorem asU64_number (n : UInt64) : asU64 (.number n.toNat) = some n := by
  rw [asU64, if_pos n.toNat_lt, UInt64.ofNat_toNat]

@[simp] theorem asU32_number (n : UInt32) : asU32 (.number n.toNat) = some n := by
  rw [asU32, if_pos n.toNat_lt, UInt32.ofNat_toNat]

/-- What may be absent is read again. -/
theorem nullable_orNull {α : Type*} {encode : α → Json} {decode : Json → Option α}
    (hnull : ∀ a, encode a ≠ .null) (hread : ∀ a, decode (encode a) = some a) (a : Option α) :
    nullable decode (orNull encode a) = some a := by
  cases a with
  | none => rfl
  | some a =>
    rw [orNull, nullable.eq_2 _ _ (hnull a), hread]
    rfl

@[simp] theorem nullable_asStr (a : Option String) :
    nullable asStr (orNull Json.string a) = some a := by
  apply nullable_orNull
  · intro a h
    cases h
  · intro a
    rfl

end Json

/-- The fields of a record that is read, and whether they have names. -/
structure Fields where
  named : Bool
  get? : String → Option Json

/-- The fields of a record, from an object or from an array that is not too long. -/
def Json.fields (names : List String) : Json → Option Fields
  | .object fields => some ⟨true, fun name => (Json.object fields).get? name⟩
  | .array values =>
    if values.length ≤ names.length then some ⟨false, fun name => values[names.idxOf name]?⟩
    else none
  | _ => none

namespace Fields

variable {α : Type*}

/-- A field that must be there. -/
def required (f : Fields) (name : String) (decode : Json → Option α) : Option α :=
  (f.get? name).bind decode

/-- A field with a value for when it is not there. -/
def orDefault (f : Fields) (name : String) (decode : Json → Option α) (value : α) : Option α :=
  match f.get? name with
  | some json => decode json
  | none => some value

/-- A field that may be absent where fields have names. -/
def optional (f : Fields) (name : String) (decode : Json → Option α) : Option (Option α) :=
  match f.get? name with
  | some json => Json.nullable decode json
  | none => if f.named then some none else none

end Fields

/-- How values of a type are written as texts and read again. -/
structure TextCodec (α : Type*) where
  encode : α → String
  decode : String → Option α
  decode_encode : ∀ a, decode (encode a) = some a

namespace TextCodec

variable {α : Type*} (c : TextCodec α)

/-- A value as JSON. -/
def toJson (a : α) : Json := .string (c.encode a)

/-- A value from JSON. -/
def ofJson (json : Json) : Option α := json.asStr.bind c.decode

@[simp] theorem ofJson_toJson (a : α) : c.ofJson (c.toJson a) = some a := c.decode_encode a

/-- A value that may be absent is read again. -/
@[simp] theorem nullable_ofJson (a : Option α) :
    Json.nullable c.ofJson (Json.orNull c.toJson a) = some a := by
  apply Json.nullable_orNull _ c.ofJson_toJson
  intro a h
  cases h

end TextCodec

end Ezer.Lib
