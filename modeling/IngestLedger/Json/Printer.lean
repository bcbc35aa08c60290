import IngestLedger.Json.Value

/-!
# Writing JSON

Values are written without blanks. In strings the quote, the backslash and the controls are
escaped, the common controls by a letter and the others by their number; all else stands as it is.
-/

namespace IngestLedger.Json

/-- A hexadecimal digit in lower case. -/
def hexDigit (n : Nat) : Char := "0123456789abcdef".toList.getD n '0'

/-- A character as it stands in a string. -/
def escape (c : Char) : List Char :=
  if c = '"' then ['\\', '"']
  else if c = '\\' then ['\\', '\\']
  else if c = '\x08' then ['\\', 'b']
  else if c = '\x0c' then ['\\', 'f']
  else if c = '\n' then ['\\', 'n']
  else if c = '\r' then ['\\', 'r']
  else if c = '\t' then ['\\', 't']
  else if c.toNat < 0x20 then
    ['\\', 'u', '0', '0', hexDigit (c.toNat / 16), hexDigit (c.toNat % 16)]
  else [c]

/-- The characters of a string between its quotes, and the closing one. -/
def stringTail (text : List Char) : List Char := text.flatMap escape ++ ['"']

/-- A string. -/
def renderString (text : String) : List Char := '"' :: stringTail text.toList

/-- A number below the greatest that a reader of plain digits takes. -/
def renderNat (n : Nat) : List Char := Nat.toDigits 10 n

namespace Value

mutual

/-- A value. A string without a text is written empty, and a number that is no plain run of digits
with its power of ten. -/
def render : Value → List Char
  | null => "null".toList
  | bool value => if value then "true".toList else "false".toList
  | number (.natural n) => renderNat n.toNat
  | number (.decimal significand exponent) =>
    renderNat significand.toNat ++ 'e' :: (if exponent < 0 then '-' :: renderNat exponent.natAbs
      else renderNat exponent.natAbs)
  | string text => renderString (text.getD "")
  | array items => '[' :: renderItems items
  | object members => '\x7b' :: renderMembers members

/-- The items of an array and the closing bracket. -/
def renderItems : List Value → List Char
  | [] => [']']
  | [item] => item.render ++ [']']
  | item :: items => item.render ++ ',' :: renderItems items

/-- The members of an object and the closing brace. -/
def renderMembers : List (Option String × Value) → List Char
  | [] => ['\x7d']
  | [(name, value)] => renderString (name.getD "") ++ ':' :: (value.render ++ ['\x7d'])
  | (name, value) :: members =>
    renderString (name.getD "") ++ ':' :: (value.render ++ ',' :: renderMembers members)

end

end Value

end IngestLedger.Json
