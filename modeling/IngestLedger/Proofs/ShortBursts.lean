import IngestLedger.Proofs.RowLayouts
import Mathlib.Data.Nat.Bitwise
import Mathlib.Logic.Function.Basic

/-!
# Damage that the checksum notices

A stored row that is damaged in at most four neighbouring bytes is refused, wherever they are and
whatever stands in their place, across the checksum too.

One bit of division is linear in exclusive or, and loses nothing: the bit that leaves comes back as
the highest one of the polynomial. So a remainder tells the remainder before it, and up to four
bytes are taken in as one number. Taking in the checksum after the bytes it was computed from leaves
the same remainder for all of them, so a value is intact exactly when it leaves that one; and two
values that differ in a short stretch leave different ones.

Main definitions:

* `Crc32.remainder`, `Crc32.residue`: the remainder of a byte string, and that of an intact value.
* `Bytes.IsBurst`: bytes are changed within a stretch.

Main statements:

* `Crc32.shift_injective`, `Crc32.foldl_absorb_injective`: division loses nothing.
* `Crc32.foldl_absorb_of_short`: up to four bytes are taken in as one number.
* `Record.verify_split_iff`: when the checksum of a value is right.
* `RowType.decode_of_burst`: a value that is damaged in up to four neighbouring bytes is refused.
* `RowType.exists_unnoticed_burst`: one that is damaged in five need not be.
-/

namespace IngestLedger

namespace Crc32

/-! ### One bit of division -/

theorem low_iff (remainder : UInt32) :
    remainder &&& 1 = 1 ↔ remainder.toBitVec.getLsbD 0 = true := by
  have low : (remainder &&& 1).toBitVec =
      BitVec.setWidth 32 (BitVec.ofBool (remainder.toBitVec.getLsbD 0)) :=
    BitVec.and_one_eq_setWidth_ofBool_getLsbD
  rw [← UInt32.toBitVec_inj, low]
  cases remainder.toBitVec.getLsbD 0 <;> decide

/-- The bits after one bit of division: each comes from its upper neighbour, and where the
polynomial has one, the lowest bit is added. -/
theorem getLsbD_shift (remainder : UInt32) (i : Nat) :
    (shift remainder).toBitVec.getLsbD i = (remainder.toBitVec.getLsbD (1 + i) ^^
      (remainder.toBitVec.getLsbD 0 && polynomial.toBitVec.getLsbD i)) := by
  have halved : (remainder >>> 1).toBitVec.getLsbD i = remainder.toBitVec.getLsbD (1 + i) :=
    BitVec.getLsbD_ushiftRight _ 1 i
  unfold shift
  by_cases low : remainder.toBitVec.getLsbD 0 = true
  · rw [if_pos ((low_iff remainder).2 low), low, Bool.true_and, UInt32.toBitVec_xor,
      BitVec.getLsbD_xor, halved]
  · rw [if_neg fun one => low ((low_iff remainder).1 one), Bool.eq_false_iff.2 low, Bool.false_and,
      Bool.xor_false, halved]

theorem shift_xor (a b : UInt32) : shift (a ^^^ b) = shift a ^^^ shift b := by
  refine UInt32.toBitVec_inj.1 (BitVec.eq_of_getLsbD_eq fun i _ => ?_)
  simp only [UInt32.toBitVec_xor, BitVec.getLsbD_xor, getLsbD_shift, Bool.and_xor_distrib_right,
    Bool.xor_assoc, Bool.xor_left_comm]

/-- The highest bit after one bit of division is the one that left. -/
theorem shift_injective : Function.Injective shift := by
  intro a b same
  have bits i : (a.toBitVec.getLsbD (1 + i) ^^
        (a.toBitVec.getLsbD 0 && polynomial.toBitVec.getLsbD i)) =
      (b.toBitVec.getLsbD (1 + i) ^^
        (b.toBitVec.getLsbD 0 && polynomial.toBitVec.getLsbD i)) := by
    rw [← getLsbD_shift, ← getLsbD_shift, same]
  have highest : polynomial.toBitVec.getLsbD 31 = true := by decide
  have low : a.toBitVec.getLsbD 0 = b.toBitVec.getLsbD 0 := by
    have upper := bits 31
    rwa [BitVec.getLsbD_of_ge _ (1 + 31) (by decide), BitVec.getLsbD_of_ge _ (1 + 31) (by decide),
      highest, Bool.false_xor, Bool.false_xor, Bool.and_true, Bool.and_true] at upper
  refine UInt32.toBitVec_inj.1 (BitVec.eq_of_getLsbD_eq fun i _ => ?_)
  cases i with
  | zero => exact low
  | succ i =>
    have upper := bits i
    rw [low, Bool.xor_left_inj] at upper
    rwa [Nat.add_comm i 1]

theorem shifts_add (m n : Nat) (remainder : UInt32) :
    shifts (m + n) remainder = shifts m (shifts n remainder) := by
  induction n generalizing remainder with
  | zero => rfl
  | succ n ih => exact ih (shift remainder)

theorem shifts_xor (count : Nat) (a b : UInt32) :
    shifts count (a ^^^ b) = shifts count a ^^^ shifts count b := by
  induction count generalizing a b with
  | zero => rfl
  | succ count ih => rw [shifts, shift_xor, ih, shifts, shifts]

theorem shifts_injective (count : Nat) : Function.Injective (shifts count) := by
  induction count with
  | zero => exact fun _ _ same => same
  | succ count ih => exact fun _ _ same => shift_injective (ih same)

/-! ### Bytes -/

theorem foldl_absorb_injective (bytes : Bytes) :
    Function.Injective fun remainder => bytes.foldl absorb remainder := by
  induction bytes with
  | nil => exact fun _ _ same => same
  | cons byte bytes ih =>
    intro a b same
    have before : a ^^^ byte.toUInt32 = b ^^^ byte.toUInt32 := shifts_injective 8 (ih same)
    exact (UInt32.xor_left_inj _).1 before

/-- The number that up to four bytes write, lowest first. -/
def word (bytes : Bytes) : UInt32 := (Bytes.toNatLE bytes).toUInt32

theorem toNat_word {bytes : Bytes} (short : bytes.length ≤ 4) :
    (word bytes).toNat = Bytes.toNatLE bytes := by
  have small : Bytes.toNatLE bytes < UInt32.size :=
    Nat.lt_of_lt_of_le (Bytes.toNatLE_lt bytes)
      (Nat.pow_le_pow_right (by decide) short : 256 ^ bytes.length ≤ 256 ^ 4)
  exact UInt32.toNat_ofNat_of_lt' small

theorem eq_of_word_eq {bytes others : Bytes} (length : bytes.length = others.length)
    (short : bytes.length ≤ 4) (same : word bytes = word others) : bytes = others := by
  have numbers : Bytes.toNatLE bytes = Bytes.toNatLE others := by
    rw [← toNat_word short, ← toNat_word (length ▸ short), same]
  rw [← Bytes.ofNatLE_toNatLE bytes, length, numbers, Bytes.ofNatLE_toNatLE]

/-- A number whose lowest bits are clear only moves down. -/
theorem shifts_two_pow_mul (count : Nat) {n : Nat} (small : 2 ^ count * n < UInt32.size) :
    shifts count (2 ^ count * n).toUInt32 = n.toUInt32 := by
  induction count generalizing n with
  | zero => rw [Nat.pow_zero, Nat.one_mul, shifts]
  | succ count ih =>
    have twice : 2 ^ (count + 1) * n = 2 * (2 ^ count * n) := by
      rw [Nat.pow_succ', Nat.mul_assoc]
    rw [twice] at small ⊢
    have even : (2 * (2 ^ count * n)).toUInt32 &&& 1 ≠ 1 := by
      rw [Ne, ← UInt32.toNat_inj, UInt32.toNat_and, UInt32.toNat_ofNat_of_lt' small]
      simp
    have halved : (2 * (2 ^ count * n)).toUInt32 >>> 1 = (2 ^ count * n).toUInt32 := by
      rw [← UInt32.toNat_inj, UInt32.toNat_shiftRight, UInt32.toNat_ofNat_of_lt' small,
        UInt32.toNat_ofNat_of_lt' (Nat.lt_of_le_of_lt (by omega) small)]
      simp [Nat.shiftRight_one]
    rw [shifts, shift, if_neg even, halved]
    exact ih (by omega)

/-- The lowest byte of a number and the rest of it do not overlap. -/
theorem word_cons (byte : UInt8) (bytes : Bytes) :
    word (byte :: bytes) = byte.toUInt32 ^^^ (2 ^ 8 * Bytes.toNatLE bytes).toUInt32 := by
  have apart : byte.toNat + 256 * Bytes.toNatLE bytes =
      byte.toNat ^^^ 2 ^ 8 * Bytes.toNatLE bytes := by
    have small : byte.toNat < 2 ^ 8 := byte.toNat_lt
    refine Nat.eq_of_testBit_eq fun i => ?_
    rw [Nat.add_comm, Nat.testBit_two_pow_mul_add _ small, Nat.testBit_xor,
      Nat.testBit_two_pow_mul]
    by_cases low : i < 8
    · simp [low, Nat.not_le.2 low]
    · have high : byte.toNat.testBit i = false :=
        Nat.testBit_lt_two_pow (Nat.lt_of_lt_of_le small
          (Nat.pow_le_pow_right (by decide) (Nat.not_lt.1 low)))
      simp [low, high, Nat.not_lt.1 low]
  have lowest : byte.toNat.toUInt32 = byte.toUInt32 := by
    rw [← UInt32.toNat_inj, UInt8.toNat_toUInt32]
    exact UInt32.toNat_ofNat_of_lt' (Nat.lt_trans byte.toNat_lt (by decide))
  rw [word, Bytes.toNatLE, apart, ← lowest]
  exact UInt32.ofNat_xor _ _

/-- Up to four bytes are taken in as the number that they write: adding it to the remainder, and
then as many bits of division as there are in them. -/
theorem foldl_absorb_of_short {bytes : Bytes} (short : bytes.length ≤ 4) (remainder : UInt32) :
    bytes.foldl absorb remainder = shifts (8 * bytes.length) (remainder ^^^ word bytes) := by
  induction bytes generalizing remainder with
  | nil => exact (UInt32.xor_zero).symm
  | cons byte bytes ih =>
    have fewer : bytes.length ≤ 3 := Nat.le_of_succ_le_succ short
    have small : 2 ^ 8 * Bytes.toNatLE bytes < UInt32.size := by
      have bound := Nat.lt_of_lt_of_le (Bytes.toNatLE_lt bytes)
        (Nat.pow_le_pow_right (by decide) fewer : 256 ^ bytes.length ≤ 256 ^ 3)
      have size : UInt32.size = 2 ^ 8 * 256 ^ 3 := rfl
      omega
    -- the bytes behind the first one are met eight bits later
    have later : word bytes = shifts 8 (2 ^ 8 * Bytes.toNatLE bytes).toUInt32 :=
      (shifts_two_pow_mul 8 small).symm
    calc (byte :: bytes).foldl absorb remainder
        = shifts (8 * bytes.length) (absorb remainder byte ^^^ word bytes) :=
          ih (Nat.le_succ_of_le fewer) _
      _ = shifts (8 * bytes.length) (shifts 8 (remainder ^^^ word (byte :: bytes))) := by
          rw [later, absorb, ← shifts_xor, word_cons, UInt32.xor_assoc]
      _ = shifts (8 * (bytes.length + 1)) (remainder ^^^ word (byte :: bytes)) :=
          (shifts_add _ 8 _).symm

/-! ### The remainder of an intact value -/

/-- The remainder of a byte string, before it is complemented. -/
def remainder (bytes : Bytes) : UInt32 := bytes.foldl absorb 0xFFFFFFFF

/-- What bytes and their checksum leave, whatever the bytes are. -/
def residue : UInt32 := shifts 32 0xFFFFFFFF

example : residue = 0xDEBB20E3 := by decide +kernel

/-- Four bytes are the checksum of those before them if all together leave the residue. -/
theorem checksum_eq_word_iff {payload tail : Bytes} (four : tail.length = 4) :
    checksum payload = word tail ↔ remainder (payload ++ tail) = residue := by
  have taken : remainder (payload ++ tail) = shifts 32 (remainder payload ^^^ word tail) := by
    rw [remainder, List.foldl_append, foldl_absorb_of_short (Nat.le_of_eq four), four]
    rfl
  rw [taken, residue, (shifts_injective 32).eq_iff]
  show remainder payload ^^^ 0xFFFFFFFF = word tail ↔ remainder payload ^^^ word tail = 0xFFFFFFFF
  constructor
  · intro same
    rw [← same, ← UInt32.xor_assoc, UInt32.xor_self, UInt32.zero_xor]
  · intro same
    rw [← same, ← UInt32.xor_assoc, UInt32.xor_self, UInt32.zero_xor]

/-- Byte strings that differ in up to four neighbouring bytes leave different remainders. -/
theorem remainder_ne {front burst other back : Bytes} (length : burst.length = other.length)
    (short : burst.length ≤ 4) (different : burst ≠ other) :
    remainder (front ++ (burst ++ back)) ≠ remainder (front ++ (other ++ back)) := by
  intro same
  simp only [remainder, List.foldl_append] at same
  have middle := foldl_absorb_injective back same
  have short' : other.length ≤ 4 := length ▸ short
  rw [foldl_absorb_of_short short, foldl_absorb_of_short short', length] at middle
  have words := (UInt32.xor_right_inj _).1 (shifts_injective _ middle)
  exact different (eq_of_word_eq length short words)

end Crc32

/-! ### Bursts -/

/-- Bytes that are changed into others, as many, and only within `width` consecutive positions. -/
structure Bytes.IsBurst (width : Nat) (bytes changed : Bytes) : Prop where
  length_eq : changed.length = bytes.length
  ne : changed ≠ bytes
  within : ∃ first, ∀ i, changed[i]? ≠ bytes[i]? → first ≤ i ∧ i < first + width

/-- Before and behind a burst the bytes are the same. -/
theorem Bytes.IsBurst.exists_stretch {width : Nat} {bytes changed : Bytes}
    (h : bytes.IsBurst width changed) : ∃ front burst other back,
      bytes = front ++ (burst ++ back) ∧ changed = front ++ (other ++ back) ∧
      burst.length = other.length ∧ burst.length ≤ width ∧ burst ≠ other := by
  obtain ⟨length_eq, ne, first, within⟩ := h
  have same i (outside : i < first ∨ first + width ≤ i) : changed[i]? = bytes[i]? := by
    by_contra differs
    have inside := within i differs
    omega
  have front : changed.take first = bytes.take first := by
    refine List.ext_getElem? fun i => ?_
    by_cases before : i < first
    · rw [List.getElem?_take_of_lt before, List.getElem?_take_of_lt before, same i (.inl before)]
    · rw [List.getElem?_take_eq_none (Nat.not_lt.1 before),
        List.getElem?_take_eq_none (Nat.not_lt.1 before)]
  have back : changed.drop (first + width) = bytes.drop (first + width) := by
    refine List.ext_getElem? fun i => ?_
    rw [List.getElem?_drop, List.getElem?_drop, same _ (.inr (Nat.le_add_right _ i))]
  have whole (all : Bytes) : all = all.take first ++
      ((all.drop first).take width ++ all.drop (first + width)) := by
    rw [← List.drop_drop, List.take_append_drop, List.take_append_drop]
  refine ⟨bytes.take first, (bytes.drop first).take width, (changed.drop first).take width,
    bytes.drop (first + width), whole bytes, ?_, ?_, List.length_take_le _ _, ?_⟩
  · rw [← front, ← back]
    exact whole changed
  · rw [List.length_take, List.length_take, List.length_drop, List.length_drop, length_eq]
  · intro burst
    rw [whole changed, whole bytes, front, back, burst] at ne
    exact ne rfl

/-! ### Stored values -/

namespace Record

/-- The checksum of a value is right when the value leaves the residue. -/
theorem verify_split_iff {value : Bytes} (long : 4 ≤ value.length) :
    Crc32.verify (split value).1 (split value).2 = true ↔
      Crc32.remainder value = Crc32.residue := by
  have four : (value.drop (value.length - 4)).length = 4 := by
    rw [List.length_drop]
    omega
  rw [Crc32.verify, decide_eq_true_iff]
  show Crc32.checksum (value.take _) = Crc32.word (value.drop _) ↔ _
  rw [Crc32.checksum_eq_word_iff four, List.take_append_drop]

/-- What is written leaves the residue. -/
theorem remainder_of_encode {α : Type} [Row α] {row : α} {value : Bytes}
    (written : encode row = .ok value) :
    4 ≤ value.length ∧ Crc32.remainder value = Crc32.residue := by
  obtain ⟨payload, rfl⟩ : ∃ payload, value = checksummed payload := by
    unfold encode at written
    split at written
    · exact ⟨_, (Except.ok.inj written).symm⟩
    · cases written
  have long : 4 ≤ (checksummed payload).length := by
    rw [length_checksummed]
    exact Nat.le_add_left 4 _
  refine ⟨long, (verify_split_iff long).1 ?_⟩
  rw [split_checksummed]
  exact decide_eq_true rfl

/-- A value of four bytes or more that does not leave the residue is refused as damaged. -/
theorem decode_of_remainder_ne {α : Type} [Row α] {key value : Bytes} (long : 4 ≤ value.length)
    (wrong : Crc32.remainder value ≠ Crc32.residue) :
    (split value).2 ≠ Crc32.checksum (split value).1 ∧
    (decode key value : Except LedgerError α) = .error (.dataCorruption (displayKey key)
      (split value).2 (Crc32.checksum (split value).1)) := by
  have refused : ¬ Crc32.verify (split value).1 (split value).2 = true := fun verified =>
    wrong ((verify_split_iff long).1 verified)
  refine ⟨fun same => refused (decide_eq_true same.symm), ?_⟩
  unfold decode
  rw [if_neg (Nat.not_lt.2 long)]
  exact if_neg refused

end Record

/-- For every row of every type and every key: when the value that is stored for the row is changed
in one byte or more within four consecutive positions, anywhere in its fields or its checksum or
across their border, then reading it, as a row of whatever type, is refused because the checksum in
it is not that of the bytes before. -/
theorem RowType.decode_of_burst (type : RowType) (row : type.Carrier) {value damaged : Bytes}
    (written : Record.encode row = .ok value) (burst : value.IsBurst 4 damaged) (key : Bytes)
    (other : RowType) :
    (Record.split damaged).2 ≠ Crc32.checksum (Record.split damaged).1 ∧
    (Record.decode key damaged : Except LedgerError other.Carrier) =
      .error (.dataCorruption (displayKey key) (Record.split damaged).2
        (Crc32.checksum (Record.split damaged).1)) := by
  obtain ⟨long, intact⟩ := Record.remainder_of_encode written
  refine Record.decode_of_remainder_ne (burst.length_eq ▸ long) fun unnoticed => ?_
  obtain ⟨front, before, after, back, rfl, rfl, length, short, different⟩ := burst.exists_stretch
  exact Crc32.remainder_ne length short different (intact.trans unnoticed.symm)

/-- The mark of the layout, damaged in its last two bytes and in the first two of its checksum. -/
theorem RowType.decode_damagedLayout :
    Record.encode LayoutRow.current = .ok [1, 0, 0, 0, 121, 184, 248, 153] ∧
    Bytes.IsBurst 4 [1, 0, 0, 0, 121, 184, 248, 153] [1, 0, 7, 9, 0, 0, 248, 153] ∧
    (Record.decode [] [1, 0, 7, 9, 0, 0, 248, 153] : Except LedgerError LayoutRow) =
      .error (.dataCorruption "" 2583166976 (Crc32.checksum [1, 0, 7, 9])) := by
  have written : Record.encode LayoutRow.current = .ok [1, 0, 0, 0, 121, 184, 248, 153] := by
    decide +kernel
  have burst : Bytes.IsBurst 4 [1, 0, 0, 0, 121, 184, 248, 153] [1, 0, 7, 9, 0, 0, 248, 153] := by
    refine ⟨rfl, by decide, 2, fun i differs => ?_⟩
    rcases i with _ | _ | _ | _ | _ | _ | _ | _ | i <;> simp_all
  exact ⟨written, burst, (layout.decode_of_burst LayoutRow.current written burst [] layout).2⟩

/-! ### Longer bursts -/

namespace Crc32

theorem absorb_xor (a b : UInt32) (byte other : UInt8) :
    absorb (a ^^^ b) (byte ^^^ other) = absorb a byte ^^^ absorb b other := by
  rw [absorb, absorb, absorb, ← shifts_xor, UInt8.toUInt32_xor]
  congr 1
  ac_rfl

/-- Changes are taken in apart from what they change. -/
theorem foldl_absorb_xor {bytes changes : Bytes} (length : bytes.length = changes.length)
    (a b : UInt32) : (List.zipWith (· ^^^ ·) bytes changes).foldl absorb (a ^^^ b) =
      bytes.foldl absorb a ^^^ changes.foldl absorb b := by
  induction bytes generalizing changes a b with
  | nil =>
    cases changes with
    | nil => rfl
    | cons => cases length
  | cons byte bytes ih =>
    cases changes with
    | nil => cases length
    | cons change changes =>
      rw [List.zipWith_cons_cons, List.foldl_cons, absorb_xor]
      exact ih (Nat.succ.inj length) _ _

/-- The polynomial behind its leading bit, in the order in which bits are taken in: a change that
leaves nothing. -/
def generator : Bytes := [0x41, 0x06, 0x71, 0xDB, 0x01]

theorem foldl_absorb_generator : generator.foldl absorb 0 = 0 := by decide +kernel

end Crc32

/-- Adding the generator to five bytes leaves the remainder as it is. -/
theorem Crc32.remainder_xor_generator {bytes rest : Bytes} (five : bytes.length = 5) :
    remainder (List.zipWith (· ^^^ ·) bytes generator ++ rest) = remainder (bytes ++ rest) := by
  have same : bytes.length = generator.length := five
  have taken := foldl_absorb_xor same 0xFFFFFFFF 0
  rw [foldl_absorb_generator, UInt32.xor_zero, UInt32.xor_zero] at taken
  rw [remainder, remainder, List.foldl_append, List.foldl_append, taken]

theorem Bytes.isBurst_xor_generator {bytes rest : Bytes} (five : bytes.length = 5) :
    (bytes ++ rest).IsBurst 5 (List.zipWith (· ^^^ ·) bytes Crc32.generator ++ rest) := by
  have length : (List.zipWith (· ^^^ ·) bytes Crc32.generator).length = bytes.length := by
    rw [List.length_zipWith, five]
    rfl
  refine ⟨?_, fun same => ?_, 0, fun i differs => ⟨Nat.zero_le i, ?_⟩⟩
  · rw [List.length_append, List.length_append, length]
  · obtain ⟨front, -⟩ := List.append_inj same length
    cases bytes with
    | nil => cases five
    | cons byte bytes =>
      -- the first byte is changed
      have first : byte ^^^ 0x41 = byte ^^^ 0 := by
        rw [UInt8.xor_zero]
        exact (List.cons.inj front).1
      exact absurd ((UInt8.xor_right_inj byte).1 first) (by decide)
  · by_contra behind
    have after : bytes.length ≤ i := by omega
    rw [List.getElem?_append_right after, List.getElem?_append_right (length ▸ after), length]
      at differs
    exact differs rfl

theorem RowType.bytes_ne_nil (type : RowType) (row : type.Carrier) : type.bytes row ≠ [] := by
  cases type <;> simp [bytes, fields, Field.bytes, Bytes.ofNatLE]

/-- Four positions are the most: the value that is stored for a row can be changed within five so
that its checksum is still right. -/
theorem RowType.exists_unnoticed_burst (type : RowType) (row : type.Carrier) {value : Bytes}
    (written : Record.encode row = .ok value) : ∃ damaged, value.IsBurst 5 damaged ∧
      Crc32.verify (Record.split damaged).1 (Record.split damaged).2 = true := by
  obtain ⟨-, intact⟩ := Record.remainder_of_encode written
  have long : 5 ≤ value.length := by
    have fits := (decode_iff.1 (Record.decode_encode written [])).1
    have some_byte := List.length_pos_iff.2 (type.bytes_ne_nil row)
    rw [← Except.ok.inj ((encode_of_fits fits).symm.trans written), List.length_append,
      Crc32.length_stored]
    omega
  obtain ⟨front, back, rfl, five⟩ : ∃ front back, value = front ++ back ∧ front.length = 5 :=
    ⟨value.take 5, value.drop 5, (List.take_append_drop 5 value).symm, List.length_take_of_le long⟩
  have burst : (front ++ back).IsBurst 5 _ := Bytes.isBurst_xor_generator five
  refine ⟨_, burst, (Record.verify_split_iff ?_).2 ?_⟩
  · rw [burst.length_eq]
    exact Nat.le_of_succ_le long
  · rw [Crc32.remainder_xor_generator five]
    exact intact

end IngestLedger
