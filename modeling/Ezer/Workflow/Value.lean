import Mathlib.Data.List.Sort
import Mathlib.Data.String.Basic

/-!
# JSON values

The JSON values that scripts pass to the host, the host answers with and the
journal keeps, and their canonical form, in which every object has its keys in
order.
-/

namespace Ezer.Workflow

/-- A JSON number is an unsigned integer, a negative integer or a double. -/
inductive Number where
  | posInt (n : ℕ)
  | negInt (n : ℤ)
  | float (bits : UInt64)

/-- A JSON value; an object has its keys in insertion order. -/
inductive Value where
  | null
  | bool (b : Bool)
  | number (n : Number)
  | string (s : String)
  | array (items : List Value)
  | object (fields : List (String × Value))

namespace Value

/-- `Value::get`: the field of an object. -/
def get : Value → String → Option Value
  | object fields, key => (fields.find? fun f => f.1 = key).map Prod.snd
  | _, _ => none

/-- `Value::as_str`. -/
def asStr : Value → Option String
  | string s => some s
  | _ => none

/-- `Value::as_object`. -/
def asObject : Value → Option (List (String × Value))
  | object fields => some fields
  | _ => none

/-- An absent value is null. -/
def ofOption {α : Type} (f : α → Value) : Option α → Value
  | none => null
  | some a => f a

/-- An unsigned integer as a value. -/
def ofNat (n : ℕ) : Value := number (.posInt n)

end Value

mutual

/-- Every object of the value has its keys in order. -/
def canonicalJson : Value → Value
  | .object fields =>
    .object ((canonicalFields fields).insertionSort fun a b => a.1 ≤ b.1)
  | .array items => .array (canonicalItems items)
  | other => other
  termination_by structural value => value

/-- The items of an array in canonical form. -/
def canonicalItems : List Value → List Value
  | [] => []
  | v :: vs => canonicalJson v :: canonicalItems vs
  termination_by structural items => items

/-- The fields of an object with their values in canonical form. -/
def canonicalFields : List (String × Value) → List (String × Value)
  | [] => []
  | (k, v) :: fs => (k, canonicalJson v) :: canonicalFields fs
  termination_by structural fields => fields

end

end Ezer.Workflow
