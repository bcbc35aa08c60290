import IngestLedger.Bytes
import IngestLedger.Text.Quoted
import IngestLedger.Text.Utf8

/-!
# Hexadecimal text

Bytes are shown as two hexadecimal digits each, in lower case; a hex literal puts `0x` before
them. Digits of either case are read. A literal with a fault names the first one: no `0x` at the
front, an odd number of digits, or a byte that is no digit with its place after the `0x`.
-/

namespace IngestLedger.Hex

/-- The digits in order of their value. -/
def digits : List Char := "0123456789abcdef".toList

/-- The digit of a value below sixteen. -/
def digit (value : Nat) : Char := digits.getD value '0'

/-- The two digits of a byte. -/
def ofByte (byte : UInt8) : List Char := [digit (byte.toNat / 16), digit (byte.toNat % 16)]

/-- Bytes as digits. -/
def encode (bytes : Bytes) : String := String.ofList (bytes.flatMap ofByte)

/-- Bytes as a literal: `0x` and their digits. -/
def literal (bytes : Bytes) : String := "0x" ++ encode bytes

/-- The value of a digit, given as the byte it is written as. -/
def value? (digit : UInt8) : Option Nat :=
  let code := digit.toNat
  if 0x30 ≤ code ∧ code ≤ 0x39 then some (code - 0x30)
  else if 0x61 ≤ code ∧ code ≤ 0x66 then some (code - 0x61 + 10)
  else if 0x41 ≤ code ∧ code ≤ 0x46 then some (code - 0x41 + 10)
  else none

/-- What is wrong with a text that should be a literal. -/
inductive Fault where
  | notLiteral (text : String)
  | oddLength
  | badDigit (byte : UInt8) (position : Nat)
  deriving DecidableEq, Repr

/-- The fault in words. A byte that is no digit is shown as the character of its code. -/
def Fault.message : Fault → String
  | .notLiteral text => "expected 0x-prefixed hex, got " ++ Text.quoted text
  | .oddLength => "Odd number of digits"
  | .badDigit byte position =>
    "Invalid character " ++ Text.quotedChar (Char.ofNat byte.toNat) ++
      " at position " ++ toString position

/-- The bytes of pairs of digits, the first of which stands at `position`. -/
def decodePairs : (position : Nat) → Bytes → Except Fault Bytes
  | _, [] => .ok []
  | _, [_] => .error .oddLength
  | position, high :: low :: rest =>
    match value? high with
    | none => .error (.badDigit high position)
    | some h =>
      match value? low with
      | none => .error (.badDigit low (position + 1))
      | some l =>
        match decodePairs (position + 2) rest with
        | .error fault => .error fault
        | .ok bytes => .ok ((16 * h + l).toUInt8 :: bytes)

/-- The bytes of a string of digits; an odd length is noticed before a bad digit. -/
def decode (digits : Bytes) : Except Fault Bytes :=
  if digits.length % 2 = 1 then .error .oddLength else decodePairs 0 digits

/-- The bytes of a literal. -/
def ofLiteral (text : String) : Except Fault Bytes :=
  match text.toList with
  | '0' :: 'x' :: rest => decode (Utf8.encode (String.ofList rest))
  | _ => .error (.notLiteral text)

/-- A 32-bit number as a literal of eight digits. -/
def word (n : UInt32) : String := literal (Bytes.ofNatLE 4 n.toNat).reverse

end IngestLedger.Hex
