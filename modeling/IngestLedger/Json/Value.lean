import IngestLedger.Json.Number

/-!
# JSON values

The values of a JSON text. A string whose escapes form no Unicode text has no text.

Main definitions:

* `Json.Value`: the values.
* `Json.Value.record`: the object with some fields.
* `Json.Value.isStorable`: whether a value can be kept until it is needed, which bounds nesting
  and wants every string to have a text and every number to be finite.
-/

namespace IngestLedger.Json

/-- A JSON value. -/
inductive Value where
  | null
  | bool (value : Bool)
  | number (value : Number)
  | string (text : Option String)
  | array (items : List Value)
  | object (members : List (Option String × Value))

namespace Value

/-- A text as a value. -/
def text (words : String) : Value := string (some words)

/-- A whole number as a value. -/
def word (n : UInt64) : Value := number (.natural n)

/-- Something that may be missing as a value, which is null without it. -/
def optional {α : Type} (value : α → Value) : Option α → Value
  | some a => value a
  | none => null

/-- The object with the given fields in the given order. -/
def record (fields : List (String × Value)) : Value :=
  object (fields.map fun (name, value) => (some name, value))

mutual

/-- Whether a value that may still nest `depth` containers deep can be kept. -/
def isStorable : (depth : Nat) → Value → Bool
  | _, null | _, bool _ => true
  | _, number n => n.isFinite
  | _, string text => text.isSome
  | 0, array _ | 0, object _ => false
  | depth + 1, array items => allStorable depth items
  | depth + 1, object members => membersStorable depth members

/-- Whether all items of an array can be kept. -/
def allStorable : (depth : Nat) → List Value → Bool
  | _, [] => true
  | depth, item :: items => isStorable depth item && allStorable depth items

/-- Whether all members of an object can be kept. -/
def membersStorable : (depth : Nat) → List (Option String × Value) → Bool
  | _, [] => true
  | depth, (name, value) :: members =>
    name.isSome && isStorable depth value && membersStorable depth members

end

end Value

end IngestLedger.Json
