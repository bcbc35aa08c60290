import IngestLedger.Bytes

/-!
# UTF-8

Text is written as UTF-8 bytes. Bytes that are no text have a first fault: the longest start of a
character that cannot be continued, or a character cut off by the end of the bytes. A lossy
reading puts one replacement character in the place of each fault.

Main statements:

* `decode?_eq_some_iff`: bytes read as a text exactly when they are what the text is written as.
* `encode_injective`: two texts written alike are equal.
-/

namespace IngestLedger.Utf8

/-- The bytes a text is written as. -/
def encode (text : String) : Bytes := text.toByteArray.data.toList

/-- The text that bytes are written from, if any. -/
def decode? (bytes : Bytes) : Option String := String.fromUTF8? ⟨bytes.toArray⟩

theorem decode?_eq_some_iff {bytes : Bytes} {text : String} :
    decode? bytes = some text ↔ bytes = encode text := by
  unfold decode? encode String.fromUTF8?
  constructor
  · intro h
    split at h
    · simp only [Option.some.injEq] at h
      subst h
      simp [String.fromUTF8]
    · exact absurd h (by simp)
  · rintro rfl
    have same : (⟨text.toByteArray.data.toList.toArray⟩ : ByteArray) = text.toByteArray := by simp
    rw [dif_pos (by rw [same]; exact text.isValidUTF8), Option.some.injEq,
      ← String.toByteArray_inj]
    simp [String.fromUTF8]

@[simp] theorem decode?_encode (text : String) : decode? (encode text) = some text :=
  decode?_eq_some_iff.2 rfl

theorem encode_injective {s t : String} (h : encode s = encode t) : s = t :=
  Option.some.inj (by rw [← decode?_encode s, ← decode?_encode t, h])

/-- What stands at the front of a byte string: a character of `length` bytes, `length` bytes that
no character continues, or a character that the end cuts off. -/
inductive Front where
  | character (length : Nat)
  | malformed (length : Nat)
  | truncated
  deriving DecidableEq, Repr

/-- How many bytes follow the first byte of a character, and the range of the first of them. -/
def continuation? (first : UInt8) : Option (Nat × UInt8 × UInt8) :=
  if first < 0x80 then some (0, 0x80, 0xBF)
  else if first < 0xC2 then none
  else if first < 0xE0 then some (1, 0x80, 0xBF)
  else if first = 0xE0 then some (2, 0xA0, 0xBF)
  else if first = 0xED then some (2, 0x80, 0x9F)
  else if first < 0xF0 then some (2, 0x80, 0xBF)
  else if first = 0xF0 then some (3, 0x90, 0xBF)
  else if first < 0xF4 then some (3, 0x80, 0xBF)
  else if first = 0xF4 then some (3, 0x80, 0x8F)
  else none

/-- The rest of a character of which `read` bytes are read and `missing` are due, the next one
between `low` and `high`. -/
def continue? : (missing : Nat) → (low high : UInt8) → (read : Nat) → Bytes → Front
  | 0, _, _, read, _ => .character read
  | _ + 1, _, _, _, [] => .truncated
  | missing + 1, low, high, read, byte :: bytes =>
    if low ≤ byte ∧ byte ≤ high then continue? missing 0x80 0xBF (read + 1) bytes
    else .malformed read

/-- What stands at the front of a byte and the bytes after it. -/
def front (first : UInt8) (bytes : Bytes) : Front :=
  match continuation? first with
  | none => .malformed 1
  | some (missing, low, high) => continue? missing low high 1 bytes

/-- The first place where bytes are no text: its index, and the number of bytes that no character
continues, or nothing where the end cuts a character off. -/
structure Fault where
  index : Nat
  length : Option Nat
  deriving DecidableEq, Repr

/-- The first fault of the bytes from `index` on, of which the next `skip` are already read. -/
def faultFrom : (skip index : Nat) → Bytes → Option Fault
  | _, _, [] => none
  | skip + 1, index, _ :: bytes => faultFrom skip (index + 1) bytes
  | 0, index, byte :: bytes =>
    match front byte bytes with
    | .character length => faultFrom (length - 1) (index + 1) bytes
    | .malformed length => some ⟨index, some length⟩
    | .truncated => some ⟨index, none⟩

/-- The first fault of bytes that are no text. -/
def fault (bytes : Bytes) : Fault := (faultFrom 0 0 bytes).getD ⟨0, none⟩

/-- The fault in words. -/
def Fault.message (f : Fault) : String :=
  match f.length with
  | some length => s!"invalid utf-8 sequence of {length} bytes from index {f.index}"
  | none => s!"incomplete utf-8 byte sequence from index {f.index}"

/-- The characters of the bytes, of which the next `skip` are already read, with a replacement
character for each fault. -/
def lossyFrom : (skip : Nat) → Bytes → List Char
  | _, [] => []
  | skip + 1, _ :: bytes => lossyFrom skip bytes
  | 0, byte :: bytes =>
    match front byte bytes with
    | .character length =>
      ((decode? (byte :: bytes.take (length - 1))).getD "\ufffd").toList ++
        lossyFrom (length - 1) bytes
    | .malformed length => '\ufffd' :: lossyFrom (length - 1) bytes
    | .truncated => ['\ufffd']

/-- The text of the bytes, with a replacement character for each fault. -/
def lossy (bytes : Bytes) : String := String.ofList (lossyFrom 0 bytes)

end IngestLedger.Utf8
