import IngestLedger.Codec

/-!
# Variable-length numbers

A number is written in base-128 digits, lowest first, with the high bit set on every digit but
the last. Only the shortest form is read: the last of several digits is not zero. Numbers below
`2 ^ 32` are read, from at most five digits.

Main statements:

* `decode32_eq_ok_iff`: bytes begin with a number exactly when they begin with it as it is written.
-/

namespace IngestLedger.Uleb128

/-- What is wrong with the digits of a number. -/
inductive Fault where
  | endOfBytes
  | overflow
  | notMinimal
  deriving DecidableEq, Repr

/-- A number in at most `limit` digits. -/
def encodeDigits : (limit : Nat) → Nat → Option Bytes
  | 0, _ => none
  | limit + 1, n =>
    if n < 128 then some [n.toUInt8]
    else (encodeDigits limit (n / 128)).map ((n % 128 + 128).toUInt8 :: ·)

/-- The number of at most `limit` digits at the front; `first` tells whether no digit has been
read yet. -/
def decodeDigits : (limit : Nat) → (first : Bool) → Bytes → Except Fault (Nat × Bytes)
  | 0, _, _ => .error .overflow
  | _ + 1, _, [] => .error .endOfBytes
  | limit + 1, first, byte :: rest =>
    if byte.toNat < 128 then
      if byte = 0 ∧ first = false then .error .notMinimal else .ok (byte.toNat, rest)
    else
      match decodeDigits limit false rest with
      | .error fault => .error fault
      | .ok (high, rest) => .ok (byte.toNat - 128 + 128 * high, rest)

/-- A number below `2 ^ 32`. -/
def encode32 (n : Nat) : Option Bytes := if n < UInt32.size then encodeDigits 5 n else none

/-- The number below `2 ^ 32` at the front. -/
def decode32 (bytes : Bytes) : Except Fault (Nat × Bytes) :=
  match decodeDigits 5 true bytes with
  | .error fault => .error fault
  | .ok (n, rest) => if n < UInt32.size then .ok (n, rest) else .error .overflow

theorem decodeDigits_append {limit n : Nat} {first : Bool} {front : Bytes}
    (written : encodeDigits limit n = some front) (proper : first = false → n ≠ 0)
    (rest : Bytes) : decodeDigits limit first (front ++ rest) = .ok (n, rest) := by
  induction limit generalizing n first front with
  | zero => simp [encodeDigits] at written
  | succ limit ih =>
    simp only [encodeDigits] at written
    split at written
    · rename_i small
      simp only [Option.some.injEq] at written
      subst written
      have value : n.toUInt8.toNat = n := UInt8.toNat_ofNat_of_lt' (Nat.lt_trans small (by decide))
      have nonzero : ¬(n.toUInt8 = 0 ∧ first = false) := by
        rintro ⟨zero, later⟩
        rw [zero] at value
        exact proper later (by simpa using value.symm)
      simp only [List.singleton_append, decodeDigits, value, small, if_true, nonzero, if_false]
    · rename_i big
      obtain ⟨back, writtenBack, rfl⟩ := Option.map_eq_some_iff.1 written
      have value : (n % 128 + 128).toUInt8.toNat = n % 128 + 128 :=
        UInt8.toNat_ofNat_of_lt' (Nat.add_lt_add_right (Nat.mod_lt n (by decide)) 128)
      have high : n / 128 ≠ 0 := by omega
      simp only [List.cons_append, decodeDigits, value, ih writtenBack (fun _ => high),
        show ¬(n % 128 + 128 < 128) by omega, if_false, Except.ok.injEq, Prod.mk.injEq, and_true]
      omega

theorem encodeDigits_of_decodeDigits {limit n : Nat} {first : Bool} {bytes rest : Bytes}
    (read : decodeDigits limit first bytes = .ok (n, rest)) :
    (∃ front, encodeDigits limit n = some front ∧ bytes = front ++ rest) ∧
      (first = false → n ≠ 0) := by
  induction limit generalizing n first bytes rest with
  | zero => simp [decodeDigits] at read
  | succ limit ih =>
    cases bytes with
    | nil => simp [decodeDigits] at read
    | cons byte tail =>
      have size : byte.toNat < 256 := byte.toNat_lt
      simp only [decodeDigits] at read
      split at read
      · rename_i small
        split at read
        · exact absurd read (by simp)
        · rename_i minimal
          simp only [Except.ok.injEq, Prod.mk.injEq] at read
          obtain ⟨rfl, rfl⟩ := read
          refine ⟨⟨[byte], by simp [encodeDigits, small], rfl⟩, ?_⟩
          intro later zero
          exact minimal ⟨UInt8.toNat.inj zero, later⟩
      · rename_i big
        split at read
        · exact absurd read (by simp)
        · rename_i high rest' readBack
          simp only [Except.ok.injEq, Prod.mk.injEq] at read
          obtain ⟨rfl, rfl⟩ := read
          obtain ⟨⟨front, written, rfl⟩, nonzero⟩ := ih readBack
          have positive := nonzero rfl
          have quotient : (byte.toNat - 128 + 128 * high) / 128 = high := by omega
          have remainder : (byte.toNat - 128 + 128 * high) % 128 + 128 = byte.toNat := by omega
          have more : ¬ byte.toNat - 128 + 128 * high < 128 := by omega
          refine ⟨⟨byte :: front, ?_, rfl⟩, fun _ => by omega⟩
          simp only [encodeDigits, more, if_false, quotient, remainder, written, Option.map_some]
          simp

theorem decode32_eq_ok_iff {bytes rest : Bytes} {n : Nat} :
    decode32 bytes = .ok (n, rest) ↔ ∃ front, encode32 n = some front ∧ bytes = front ++ rest := by
  unfold decode32 encode32
  constructor
  · intro read
    split at read
    · exact absurd read (by simp)
    · rename_i n' rest' digits
      split at read
      · rename_i small
        simp only [Except.ok.injEq, Prod.mk.injEq] at read
        obtain ⟨rfl, rfl⟩ := read
        obtain ⟨⟨front, written, rfl⟩, -⟩ := encodeDigits_of_decodeDigits digits
        exact ⟨front, by rw [if_pos small, written], rfl⟩
      · exact absurd read (by simp)
  · rintro ⟨front, written, rfl⟩
    split at written
    · rename_i small
      rw [decodeDigits_append written (by simp)]
      simp only [small, if_true]
    · exact absurd written (by simp)

end IngestLedger.Uleb128
