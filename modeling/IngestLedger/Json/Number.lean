/-!
# JSON numbers

A plain run of digits below `2 ^ 64` is kept exactly. Any other number is kept as the leading
digits that fit in 64 bits and the power of ten that they are multiplied by. The double that such
a number stands for is the product of two doubles, the one nearest to the digits and the one
nearest to the power, so a number just below the greatest double may have none.

Main definitions:

* `Json.Number`: the numbers.
* `Json.Number.ofDigits`: the number with some digits and some exponent.
* `Json.Number.isFinite`: whether a number stands for a double.

Main statements:

* `Json.Number.ofPlainDigits_toDigits`: the digits of a number of at most 64 bits are read as it.
* `Json.Number.nearestDouble_near`: how far a number is rounded.
-/

namespace IngestLedger.Json

/-- A number: a plain run of digits, or the leading digits of any other form with the power of ten
that they are multiplied by. -/
inductive Number where
  | natural (n : UInt64)
  | decimal (significand : UInt64) (exponent : Int)
  deriving DecidableEq, Repr

namespace Number

/-- A number with a digit after it, if that fits in 64 bits. -/
def withDigit? (n : UInt64) (digit : Char) : Option UInt64 :=
  let longer := 10 * n.toNat + (digit.toNat - '0'.toNat)
  if longer < UInt64.size then some longer.toUInt64 else none

theorem withDigit?_digitChar {n d : Nat} (digit : d < 10)
    (small : 10 * n + d < UInt64.size) :
    withDigit? (UInt64.ofNat n) d.digitChar = some (UInt64.ofNat (10 * n + d)) := by
  have code : d.digitChar.toNat - '0'.toNat = d := by
    rw [Nat.toNat_digitChar_of_lt_ten digit]
    exact Nat.add_sub_cancel_left 48 d
  have value : (UInt64.ofNat n).toNat = n := UInt64.toNat_ofNat_of_lt (by omega)
  simp only [withDigit?, code, value, small, if_true, Nat.toUInt64]

-- it is not evaluated on variables: that would count up to the bound
attribute [irreducible] withDigit?

/-- Digits before the point after those of `n`: as many as fit, and the count of the others. -/
def addWhole (n : UInt64) : List Char → UInt64 × Nat
  | [] => (n, 0)
  | digit :: digits =>
    match withDigit? n digit with
    | some n => addWhole n digits
    | none => (n, digits.length + 1)

/-- Digits behind the point after those of `n`: as many as fit, and their count. -/
def addFraction (n : UInt64) : List Char → UInt64 × Nat
  | [] => (n, 0)
  | digit :: digits =>
    match withDigit? n digit with
    | some n =>
      let (n, count) := addFraction n digits
      (n, count + 1)
    | none => (n, 0)

/-- The number with the given digits before and behind the point and the given exponent. -/
def ofDigits (whole fraction : List Char) (exponent : Int) : Number :=
  let (n, dropped) := addWhole 0 whole
  let (n, kept) := addFraction n fraction
  .decimal n (exponent + dropped - kept)

/-- The number that a plain run of digits writes. -/
def ofPlainDigits (digits : List Char) : Number :=
  match addWhole 0 digits with
  | (n, 0) => .natural n
  | (n, dropped) => .decimal n dropped

/-- One digit more is read behind those that were read. -/
theorem addWhole_append_digit {n m longer : UInt64} {digits : List Char} {digit : Char}
    (read : addWhole n digits = (m, 0)) (more : withDigit? m digit = some longer) :
    addWhole n (digits ++ [digit]) = (longer, 0) := by
  induction digits generalizing n with
  | nil =>
    simp only [addWhole, Prod.mk.injEq, and_true] at read
    simp only [List.nil_append, addWhole, read, more]
  | cons d digits ih =>
    cases next : withDigit? n d with
    | none => simp [addWhole, next] at read
    | some k =>
      simp only [addWhole, next] at read
      simp only [List.cons_append, addWhole, next, ih read]

theorem addWhole_toDigits {n : Nat} (small : n < UInt64.size) :
    addWhole 0 (Nat.toDigits 10 n) = (UInt64.ofNat n, 0) := by
  induction n using Nat.strongRecOn with
  | ind n ih =>
    by_cases single : n < 10
    · have digit := withDigit?_digitChar (n := 0) single (by omega)
      rw [Nat.mul_zero, Nat.zero_add] at digit
      rw [Nat.toDigits_of_lt_base single]
      exact addWhole_append_digit (show addWhole 0 [] = (0, 0) from rfl) digit
    · have whole : 10 * (n / 10) + n % 10 = n := Nat.div_add_mod n 10
      have digit := withDigit?_digitChar (n := n / 10) (Nat.mod_lt n (by decide)) (by omega)
      rw [whole] at digit
      rw [Nat.toDigits_of_base_le (by decide) (Nat.not_lt.1 single)]
      exact addWhole_append_digit (ih (n / 10) (by omega) (by omega)) digit

/-- The digits of a number of at most 64 bits are read as that number. -/
theorem ofPlainDigits_toDigits (n : UInt64) :
    ofPlainDigits (Nat.toDigits 10 n.toNat) = .natural n := by
  simp only [ofPlainDigits, addWhole_toDigits n.toNat_lt, UInt64.ofNat_toNat]

/-- The double nearest to a whole number: 53 binary digits are kept, and a half goes to the even
neighbour. -/
def nearestDouble (n : Nat) : Nat :=
  let unit := 1 <<< (n.log2 - 52)
  let whole := n / unit
  let rest := 2 * (n % unit)
  if rest > unit || (rest = unit && whole % 2 = 1) then (whole + 1) * unit else whole * unit

/-- A number is rounded to a multiple of its unit, by half a unit at most. -/
theorem nearestDouble_near (n : Nat) : 1 <<< (n.log2 - 52) ∣ nearestDouble n ∧
    2 * nearestDouble n ≤ 2 * n + 1 <<< (n.log2 - 52) ∧
      2 * n ≤ 2 * nearestDouble n + 1 <<< (n.log2 - 52) := by
  simp only [nearestDouble]
  generalize hunit : 1 <<< (n.log2 - 52) = unit
  have positive : 0 < unit := by
    rw [← hunit, Nat.one_shiftLeft]
    exact Nat.two_pow_pos _
  have parts : n / unit * unit + n % unit = n := Nat.div_add_mod' n unit
  have below := Nat.mod_lt n positive
  split
  · rename_i up
    have reached : unit ≤ 2 * (n % unit) := by
      simp only [gt_iff_lt, Bool.or_eq_true, Bool.and_eq_true, decide_eq_true_eq] at up
      omega
    rw [Nat.add_mul, Nat.one_mul]
    exact ⟨Nat.dvd_add (Nat.dvd_mul_left _ _) (Nat.dvd_refl _), by omega, by omega⟩
  · rename_i down
    have passed : 2 * (n % unit) ≤ unit := by
      simp only [gt_iff_lt, Bool.or_eq_true, decide_eq_true_eq, not_or] at down
      omega
    exact ⟨Nat.dvd_mul_left _ _, by omega, by omega⟩

example : nearestDouble (2 ^ 53 + 1) = 2 ^ 53 ∧ nearestDouble (2 ^ 53 + 3) = 2 ^ 53 + 4 := by
  decide

/-- A number of at most 53 binary digits is a double itself. -/
theorem nearestDouble_of_lt {n : Nat} (h : n < 1 <<< 53) : nearestDouble n = n := by
  have small : n.log2 - 52 = 0 := by
    by_cases zero : n = 0
    · subst zero; rfl
    · have bound : n < 2 ^ 53 := by simpa using h
      have := (Nat.log2_lt zero).2 bound
      omega
  simp [nearestDouble, small, Nat.mod_one]

/-- The least number whose nearest double would be beyond all doubles. -/
def infinite : Nat := 1 <<< 1024 - 1 <<< 970

/-- Whether a number stands for a double. -/
def isFinite : Number → Bool
  | natural _ => true
  | decimal significand exponent =>
    if significand = 0 || exponent < 0 then true
    else if exponent > 308 then false
    else nearestDouble significand.toNat * nearestDouble (Nat.pow 10 exponent.toNat) < infinite

end Number

end IngestLedger.Json
