import IngestLedger.Proofs.CharacterTables
import IngestLedger.Proofs.Records

/-!
# Hex literals

A literal is read as the bytes whose digits are the lower case of what stands behind its `0x`. So a
text is accepted when it is `0x` and an even number of digits of either case, and the case of its
digits does not matter for the bytes.

Main statements:

* `Hex.ofLiteral_eq_ok_iff`: the texts that are read as some bytes are their literals.
* `Hex.exists_ofLiteral_iff`: which texts are literals.
* `Hex.toList_literal_of_isLiteralOf`: the bytes of a literal written out.
* `Hex.eq_iff_of_isLiteralOf`: when two literals are of the same bytes.
-/

namespace IngestLedger.Hex

/-- A hexadecimal digit of either case. -/
def isDigit (c : Char) : Bool :=
  ('0' ≤ c && c ≤ '9') || ('a' ≤ c && c ≤ 'f') || ('A' ≤ c && c ≤ 'F')

/-- A text is `0x` and the digits of bytes, in any mixture of cases. -/
def IsLiteralOf (text : String) (bytes : Bytes) : Prop :=
  ∃ digits, text.toList = '0' :: 'x' :: digits ∧ digits.map Char.toLower = bytes.flatMap ofByte

/-! ### Digits -/

/-- The values of the digits of bytes. -/
def nibbles (bytes : Bytes) : List Nat := bytes.flatMap fun b => [b.toNat / 16, b.toNat % 16]

theorem map_digit_nibbles (bytes : Bytes) : (nibbles bytes).map digit = bytes.flatMap ofByte := by
  rw [nibbles, List.map_flatMap]
  rfl

theorem lt_of_mem_nibbles {bytes : Bytes} {n : Nat} (inside : n ∈ nibbles bytes) : n < 16 := by
  obtain ⟨b, -, inside⟩ := List.mem_flatMap.1 inside
  have bound := b.toNat_lt
  rcases List.mem_pair.1 inside with rfl | rfl
  · omega
  · exact Nat.mod_lt _ (by decide)

theorem value?_lt {b : UInt8} {n : Nat} (h : value? b = some n) : n < 16 := by
  simp only [value?] at h
  split at h
  · cases h
    omega
  · split at h
    · cases h
      omega
    · split at h
      · cases h
        omega
      · cases h

theorem toUInt8_eq_iff {h l : Nat} (high : h < 16) (low : l < 16) {b : UInt8} :
    (16 * h + l).toUInt8 = b ↔ h = b.toNat / 16 ∧ l = b.toNat % 16 := by
  have bound := b.toNat_lt
  rw [← UInt8.toNat_inj, Nat.toUInt8, UInt8.toNat_ofNat']
  omega

/-- Pairs of digits are read as the bytes with these digits. -/
theorem decodePairs_eq_ok_iff (position : Nat) {input bytes : Bytes} :
    decodePairs position input = .ok bytes ↔ input.map value? = (nibbles bytes).map some := by
  induction input using List.twoStepInduction generalizing position bytes with
  | nil =>
    cases bytes <;> simp [decodePairs, nibbles]
  | singleton b =>
    cases bytes <;> simp [decodePairs, nibbles]
  | cons_cons high low rest ih _ =>
    cases hhigh : value? high with
    | none => cases bytes <;> simp [decodePairs, nibbles, hhigh]
    | some h =>
      cases hlow : value? low with
      | none => cases bytes <;> simp [decodePairs, nibbles, hhigh, hlow]
      | some l =>
        have byte {b : UInt8} := toUInt8_eq_iff (value?_lt hhigh) (value?_lt hlow) (b := b)
        -- one pair of digits is one byte, and what is behind it is read on its own
        have step : decodePairs position (high :: low :: rest) = .ok bytes ↔
            ∃ found, decodePairs (position + 2) rest = .ok found ∧
              (16 * h + l).toUInt8 :: found = bytes := by
          simp only [decodePairs, hhigh, hlow]
          cases decodePairs (position + 2) rest <;> simp
        cases bytes with
        | nil => simp [step, nibbles]
        | cons b bytes =>
          simp only [step, ih, List.cons.injEq, exists_eq_right_right, byte, List.map_cons, hhigh,
            hlow, nibbles, List.flatMap_cons, List.cons_append, List.nil_append]
          simp only [Option.some.injEq, and_assoc, and_comm]

theorem utf8EncodeChar_of_lt {c : Char} (ascii : c.toNat < 0x80) :
    String.utf8EncodeChar c = [UInt8.ofNat c.toNat] := by
  have short : c.val.toNat ≤ 0x7f := Nat.le_of_lt_succ ascii
  simp only [String.utf8EncodeChar, short, if_true]
  rfl

theorem value?_eq_none {b : UInt8} (high : 0x80 ≤ b.toNat) : value? b = none := by
  simp only [value?]
  rw [if_neg (by omega), if_neg (by omega), if_neg (by omega)]

/-- A character beyond ASCII is written with a first byte that is no digit. -/
theorem exists_utf8EncodeChar {c : Char} (wide : 0x80 ≤ c.toNat) :
    ∃ first later, String.utf8EncodeChar c = first :: later ∧ value? first = none := by
  have long : ¬ c.val.toNat ≤ 0x7f := Nat.not_le.2 wide
  have bound : c.val.toNat < 2 ^ 32 := c.val.toNat_lt
  simp only [String.utf8EncodeChar, long, if_false]
  split
  · refine ⟨_, _, rfl, value?_eq_none ?_⟩
    rw [UInt8.toNat_ofNat']
    omega
  · split
    · refine ⟨_, _, rfl, value?_eq_none ?_⟩
      rw [UInt8.toNat_ofNat']
      omega
    · refine ⟨_, _, rfl, value?_eq_none ?_⟩
      rw [UInt8.toNat_ofNat']
      omega

/-- A character of ASCII is read as the digit that its lower case is. -/
theorem value?_ofNat_iff {c : Char} (ascii : c.toNat < 0x80) {n : Nat} (small : n < 16) :
    value? (UInt8.ofNat c.toNat) = some n ↔ c.toLower = digit n :=
  Text.of_ascii (P := fun c => ∀ n < 16,
    (value? (UInt8.ofNat c.toNat) = some n ↔ c.toLower = digit n)) (by decide +kernel) ascii n small

theorem toLower_ne_digit {c : Char} (wide : 0x80 ≤ c.toNat) (n : Nat) : c.toLower ≠ digit n := by
  intro same
  have lower : c.toLower = c := by
    refine dif_neg fun upper => ?_
    have below : c.toNat ≤ 0x5a := UInt32.le_iff_toNat_le.1 upper.2
    omega
  have ascii : (digits.all fun d => d.toNat < 0x80) = true := by decide
  have digit_ascii := of_decide_eq_true (List.all_eq_true.1 ascii _ (digit_mem n))
  rw [← same, lower] at digit_ascii
  omega

/-- The bytes of a text are digits with some values exactly when its lower case is these digits. -/
theorem map_value?_eq_iff {chars : List Char} {values : List Nat} (small : ∀ n ∈ values, n < 16) :
    (chars.flatMap String.utf8EncodeChar).map value? = values.map some ↔
      chars.map Char.toLower = values.map digit := by
  induction chars generalizing values with
  | nil => simp
  | cons c chars ih =>
    rcases Nat.lt_or_ge c.toNat 0x80 with ascii | wide
    · rw [List.flatMap_cons, utf8EncodeChar_of_lt ascii, List.singleton_append]
      cases values with
      | nil => simp
      | cons n values =>
        simp only [List.map_cons, List.cons.injEq, ih fun m inside => small m (.tail _ inside),
          value?_ofNat_iff ascii (small n (.head _))]
    · obtain ⟨first, later, written, none⟩ := exists_utf8EncodeChar wide
      rw [List.flatMap_cons, written, List.cons_append]
      cases values with
      | nil => simp
      | cons n values => simp [none, toLower_ne_digit wide]

/-! ### Literals -/

theorem decode_eq_ok_iff {input bytes : Bytes} :
    decode input = .ok bytes ↔ input.map value? = (nibbles bytes).map some := by
  rw [decode, ← decodePairs_eq_ok_iff 0]
  split
  · rename_i odd
    refine ⟨nofun, fun read => ?_⟩
    have digits := congrArg List.length ((decodePairs_eq_ok_iff 0).1 read)
    have even : (nibbles bytes).length = 2 * bytes.length := by
      rw [← List.length_map digit, map_digit_nibbles, length_flatMap_ofByte]
    rw [List.length_map, List.length_map] at digits
    omega
  · rfl

/-- A text is read as bytes exactly when it is a literal of them. -/
theorem ofLiteral_eq_ok_iff {text : String} {bytes : Bytes} :
    ofLiteral text = .ok bytes ↔ IsLiteralOf text bytes := by
  have behind (digits : List Char) : decode (Utf8.encode (String.ofList digits)) = .ok bytes ↔
      digits.map Char.toLower = bytes.flatMap ofByte := by
    rw [decode_eq_ok_iff, Utf8.encode_eq_flatMap, String.toList_ofList, ← map_digit_nibbles]
    exact map_value?_eq_iff fun n => lt_of_mem_nibbles
  unfold ofLiteral IsLiteralOf
  split
  · rename_i digits front
    rw [behind, front]
    simp
  · rename_i none
    refine ⟨nofun, ?_⟩
    rintro ⟨digits, front, -⟩
    exact absurd front (none digits)

/-- A text is a literal of no two byte strings. -/
theorem IsLiteralOf.unique {text : String} {bytes others : Bytes} (h : IsLiteralOf text bytes)
    (h' : IsLiteralOf text others) : bytes = others := by
  have read := ofLiteral_eq_ok_iff.2 h
  rw [ofLiteral_eq_ok_iff.2 h'] at read
  exact (Except.ok.inj read).symm

/-- Bytes written out are their literals in lower case. -/
theorem toList_literal_of_isLiteralOf {text : String} {bytes : Bytes}
    (h : IsLiteralOf text bytes) : (literal bytes).toList = text.toList.map Char.toLower := by
  obtain ⟨digits, front, lower⟩ := h
  rw [toList_literal, front, List.map_cons, List.map_cons, lower]
  rfl

theorem toLower_digit (n : Nat) : (digit n).toLower = digit n := by
  have lower : (digits.all fun d => d.toLower = d) = true := by decide
  exact of_decide_eq_true (List.all_eq_true.1 lower _ (digit_mem n))

theorem isLiteralOf_literal (bytes : Bytes) : IsLiteralOf (literal bytes) bytes := by
  refine ⟨_, toList_literal bytes, ?_⟩
  rw [← map_digit_nibbles, List.map_map]
  exact List.map_congr_left fun n _ => toLower_digit n

/-- A literal has two characters for each byte, and two in front. -/
theorem string_length_literal (bytes : Bytes) : (literal bytes).length = 2 + 2 * bytes.length := by
  rw [← String.length_toList, toList_literal, List.length_cons, List.length_cons,
    length_flatMap_ofByte]
  omega

/-- Two literals are of the same bytes exactly when they differ in nothing but case. -/
theorem eq_iff_of_isLiteralOf {text other : String} {bytes others : Bytes}
    (h : IsLiteralOf text bytes) (h' : IsLiteralOf other others) :
    bytes = others ↔ text.toList.map Char.toLower = other.toList.map Char.toLower := by
  rw [← toList_literal_of_isLiteralOf h, ← toList_literal_of_isLiteralOf h']
  refine ⟨fun same => by rw [same], fun same => ?_⟩
  have literal := isLiteralOf_literal bytes
  rw [String.toList_inj.1 same] at literal
  exact literal.unique (isLiteralOf_literal others)

/-- A digit is a character whose lower case is a digit in lower case. -/
theorem isDigit_iff {c : Char} : isDigit c = true ↔ ∃ n < 16, c.toLower = digit n := by
  rcases Nat.lt_or_ge c.toNat 0x80 with ascii | wide
  · exact Text.of_ascii (P := fun c => isDigit c = true ↔ ∃ n < 16, c.toLower = digit n)
      (by decide +kernel) ascii
  · constructor
    · intro digit
      simp only [isDigit, Bool.or_eq_true, Bool.and_eq_true, decide_eq_true_eq] at digit
      have bound : ∀ d : Char, c ≤ d → c.toNat ≤ d.toNat := fun d h => UInt32.le_iff_toNat_le.1 h
      obtain (⟨-, low⟩ | ⟨-, low⟩) | ⟨-, low⟩ := digit
      · exact absurd (Nat.le_trans wide (bound '9' low)) (by decide)
      · exact absurd (Nat.le_trans wide (bound 'f' low)) (by decide)
      · exact absurd (Nat.le_trans wide (bound 'F' low)) (by decide)
    · rintro ⟨n, -, same⟩
      exact absurd same (toLower_ne_digit wide n)

theorem exists_flatMap_ofByte_iff {chars : List Char} :
    (∃ bytes : Bytes, chars.map Char.toLower = bytes.flatMap ofByte) ↔
      chars.length % 2 = 0 ∧ ∀ c ∈ chars, isDigit c = true := by
  constructor
  · rintro ⟨bytes, lower⟩
    constructor
    · have length := congrArg List.length lower
      rw [List.length_map, length_flatMap_ofByte] at length
      omega
    · intro c inside
      have lowered := List.mem_map_of_mem (f := Char.toLower) inside
      rw [lower, ← map_digit_nibbles] at lowered
      obtain ⟨n, value, same⟩ := List.mem_map.1 lowered
      exact isDigit_iff.2 ⟨n, lt_of_mem_nibbles value, same.symm⟩
  · rintro ⟨even, all⟩
    induction chars using List.twoStepInduction with
    | nil => exact ⟨[], rfl⟩
    | singleton c => cases even
    | cons_cons high low rest ih _ =>
      obtain ⟨h, hbound, hdigit⟩ := isDigit_iff.1 (all high (.head _))
      obtain ⟨l, lbound, ldigit⟩ := isDigit_iff.1 (all low (.tail _ (.head _)))
      simp only [List.length_cons] at even
      obtain ⟨bytes, lower⟩ := ih (by omega) fun c inside => all c (.tail _ (.tail _ inside))
      obtain ⟨high_value, low_value⟩ := (toUInt8_eq_iff hbound lbound).1 rfl
      refine ⟨(16 * h + l).toUInt8 :: bytes, ?_⟩
      rw [List.map_cons, List.map_cons, hdigit, ldigit, lower, List.flatMap_cons, ofByte,
        ← high_value, ← low_value]
      rfl

/-- A text is a literal exactly when it is `0x` and an even number of digits of either case. -/
theorem exists_ofLiteral_iff {text : String} : (∃ bytes, ofLiteral text = .ok bytes) ↔
    ∃ digits, text.toList = '0' :: 'x' :: digits ∧ digits.length % 2 = 0 ∧
      ∀ c ∈ digits, isDigit c = true := by
  simp only [ofLiteral_eq_ok_iff, IsLiteralOf]
  rw [exists_comm]
  simp only [exists_and_left, exists_flatMap_ofByte_iff]

example : ofLiteral "0xaB" = .ok [0xab] ∧ (ofLiteral "0xb").isOk = false ∧
    (ofLiteral "0x0g").isOk = false ∧ (ofLiteral "ab").isOk = false := by decide +kernel

end IngestLedger.Hex
