import IngestLedger.Text.HexDigits
import IngestLedger.Text.Printable

/-!
# Quoted text

How a text or a single character is shown inside a message: between quotes, with an escape for the
quote itself, the backslash, the common controls and every character that is not printable.
-/

namespace IngestLedger.Text

/-- A character as it stands between two marks `quote`. -/
def escape (quote c : Char) : List Char :=
  if c = '\x00' then ['\\', '0']
  else if c = '\t' then ['\\', 't']
  else if c = '\r' then ['\\', 'r']
  else if c = '\n' then ['\\', 'n']
  else if c = '\\' ∨ c = quote then ['\\', c]
  else if isPrintable c then [c]
  else ['\\', 'u', '\x7b'] ++ hexDigits c.toNat ++ ['\x7d']

/-- A text between double quotes. -/
def quoted (text : String) : String :=
  String.ofList ('"' :: (text.toList.flatMap (escape '"') ++ ['"']))

/-- A character between single quotes. -/
def quotedChar (c : Char) : String := String.ofList ('\'' :: (escape '\'' c ++ ['\'']))

end IngestLedger.Text
