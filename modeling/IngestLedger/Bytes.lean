/-!
# Byte strings

Byte strings are lists of bytes, ordered lexicographically. This module holds the splitting of a
string at a length and the little-endian digits of a number.

Main statements:

* `toNatLE_ofNatLE` and `ofNatLE_toNatLE`: a number below `256 ^ width` and its `width`
  little-endian digits determine each other.
* `takeExact_eq_some_iff`: a string is split exactly when it is long enough.
-/

namespace IngestLedger

/-- A string of bytes. -/
abbrev Bytes := List UInt8

namespace Bytes

/-- The first `count` bytes and the bytes after them, when there are that many. -/
def takeExact (count : Nat) (bytes : Bytes) : Option (Bytes × Bytes) :=
  if count ≤ bytes.length then some (bytes.take count, bytes.drop count) else none

theorem takeExact_eq_some_iff {count : Nat} {bytes front rest : Bytes} :
    takeExact count bytes = some (front, rest) ↔ bytes = front ++ rest ∧ front.length = count := by
  unfold takeExact
  constructor
  · intro h
    split at h
    · rename_i long
      simp only [Option.some.injEq, Prod.mk.injEq] at h
      obtain ⟨rfl, rfl⟩ := h
      exact ⟨(List.take_append_drop count bytes).symm, List.length_take_of_le long⟩
    · exact absurd h (by simp)
  · rintro ⟨rfl, rfl⟩
    simp

theorem takeExact_append (front rest : Bytes) :
    takeExact front.length (front ++ rest) = some (front, rest) :=
  takeExact_eq_some_iff.2 ⟨rfl, rfl⟩

/-- The `width` lowest base-256 digits of a number, lowest first. -/
def ofNatLE : Nat → Nat → Bytes
  | 0, _ => []
  | width + 1, n => n.toUInt8 :: ofNatLE width (n / 256)

/-- The number whose base-256 digits, lowest first, are the bytes. -/
def toNatLE : Bytes → Nat
  | [] => 0
  | byte :: bytes => byte.toNat + 256 * toNatLE bytes

@[simp] theorem length_ofNatLE (width n : Nat) : (ofNatLE width n).length = width := by
  induction width generalizing n with
  | zero => rfl
  | succ width ih => simp [ofNatLE, ih]

theorem toNatLE_lt (bytes : Bytes) : toNatLE bytes < Nat.pow 256 bytes.length := by
  induction bytes with
  | nil => simp [toNatLE]
  | cons byte bytes ih =>
    have small : byte.toNat < 256 := byte.toNat_lt
    have longer : Nat.pow 256 (byte :: bytes).length = 256 * Nat.pow 256 bytes.length :=
      Nat.pow_succ'
    simp only [toNatLE, longer]
    omega

theorem toNatLE_ofNatLE {width n : Nat} (h : n < Nat.pow 256 width) :
    toNatLE (ofNatLE width n) = n := by
  induction width generalizing n with
  | zero => exact (Nat.lt_one_iff.1 h).symm
  | succ width ih =>
    have lower : n / 256 < Nat.pow 256 width := (Nat.div_lt_iff_lt_mul (by decide)).2 h
    simp only [ofNatLE, toNatLE, ih lower, UInt8.toNat_ofNat', Nat.toUInt8]
    omega

theorem ofNatLE_toNatLE (bytes : Bytes) : ofNatLE bytes.length (toNatLE bytes) = bytes := by
  induction bytes with
  | nil => rfl
  | cons byte bytes ih =>
    have small : byte.toNat < 256 := byte.toNat_lt
    have quotient : (byte.toNat + 256 * toNatLE bytes) / 256 = toNatLE bytes := by omega
    simp only [List.length_cons, ofNatLE, toNatLE, quotient, ih]
    congr 1
    apply UInt8.toNat.inj
    simp only [UInt8.toNat_ofNat', Nat.toUInt8]
    omega

end Bytes

end IngestLedger
