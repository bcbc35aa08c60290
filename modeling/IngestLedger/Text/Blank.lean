/-!
# Blank characters, letter case and whole numbers in settings

Settings are matched after blanks are cut off both ends and letters are lowered. A blank is a
character with the Unicode property White_Space. Lowering concerns the words of settings, which
are ASCII: it lowers the letters whose lower-case form is an ASCII letter, the Kelvin sign among
them.
-/

namespace IngestLedger.Text

/-- The code points with the property White_Space. -/
def isBlank (c : Char) : Bool :=
  let code := c.toNat
  (0x9 ≤ code && code ≤ 0xD) || code = 0x20 || code = 0x85 || code = 0xA0 || code = 0x1680 ||
    (0x2000 ≤ code && code ≤ 0x200A) || code = 0x2028 || code = 0x2029 || code = 0x202F ||
    code = 0x205F || code = 0x3000

/-- The characters of a text without the blanks at either end. -/
def trimChars (chars : List Char) : List Char :=
  ((chars.dropWhile isBlank).reverse.dropWhile isBlank).reverse

/-- A text without the blanks at either end. -/
def trim (text : String) : String := String.ofList (trimChars text.toList)

/-- A letter in lower case, where that is an ASCII letter. -/
def lowerChar (c : Char) : Char := if c = '\u212a' then 'k' else c.toLower

/-- A word of a setting as it is matched: trimmed and in lower case. -/
def settingWord (text : String) : String :=
  String.ofList ((trimChars text.toList).map lowerChar)

/-- Blanks around characters are cut off. -/
theorem trimChars_append {before after : List Char} (blank_before : ∀ c ∈ before, isBlank c = true)
    (blank_after : ∀ c ∈ after, isBlank c = true) (chars : List Char) :
    trimChars (before ++ chars ++ after) = trimChars chars := by
  have nothing : (after ++ []).dropWhile isBlank = [] := List.dropWhile_append_of_pos blank_after
  rw [List.append_nil] at nothing
  unfold trimChars
  rw [List.append_assoc, List.dropWhile_append_of_pos blank_before, List.dropWhile_append]
  cases left : chars.dropWhile isBlank with
  | nil => simp [nothing]
  | cons c rest =>
    rw [if_neg (by simp), List.reverse_append,
      List.dropWhile_append_of_pos (by simpa using blank_after)]

/-- Blanks around the word of a setting do not matter. -/
theorem settingWord_append {before after : List Char}
    (blank_before : ∀ c ∈ before, isBlank c = true)
    (blank_after : ∀ c ∈ after, isBlank c = true) (text : String) :
    settingWord (String.ofList (before ++ text.toList ++ after)) = settingWord text := by
  rw [settingWord, String.toList_ofList, trimChars_append blank_before blank_after, settingWord]

example : settingWord " \t\u3000rocks\u00a0" = settingWord "rocks" := by decide +kernel

/-- The number that a text of decimal digits writes, with a plus sign allowed before them, if it
is below `bound`. -/
def wholeNumber? (bound : Nat) (chars : List Char) : Option Nat :=
  let digits := match chars with
    | '+' :: digits => digits
    | digits => digits
  if digits.isEmpty || !digits.all Char.isDigit then none
  else
    let n := Nat.ofDigitChars 10 digits 0
    if n < bound then some n else none

/-- Which characters are read as a number. -/
theorem wholeNumber?_eq_some_iff {bound n : Nat} {chars : List Char} :
    wholeNumber? bound chars = some n ↔ n < bound ∧ ∃ digits, digits ≠ [] ∧
      (∀ d ∈ digits, d.isDigit = true) ∧ (chars = digits ∨ chars = '+' :: digits) ∧
      Nat.ofDigitChars 10 digits 0 = n := by
  have written (digits : List Char) :
      (if digits.isEmpty || !digits.all Char.isDigit then none
        else
          let n := Nat.ofDigitChars 10 digits 0
          if n < bound then some n else none) = some n ↔
        n < bound ∧ digits ≠ [] ∧ (∀ d ∈ digits, d.isDigit = true) ∧
          Nat.ofDigitChars 10 digits 0 = n := by
    by_cases empty : digits = []
    · simp [empty]
    by_cases all : ∀ d ∈ digits, d.isDigit = true
    · have read : ¬ (digits.isEmpty || !digits.all Char.isDigit) = true := by
        simpa [empty] using all
      rw [if_neg read]
      simp only [Option.ite_none_right_eq_some, Option.some.injEq]
      exact ⟨fun ⟨below, same⟩ => ⟨same ▸ below, empty, all, same⟩,
        fun ⟨below, _, _, same⟩ => ⟨same ▸ below, same⟩⟩
    · simp [empty, all]
  unfold wholeNumber?
  split
  · rename_i digits
    rw [written]
    constructor
    · rintro ⟨below, some_digit, all, same⟩
      exact ⟨below, digits, some_digit, all, .inr rfl, same⟩
    · rintro ⟨below, others, some_digit, all, rfl | same_chars, same⟩
      · exact absurd (all '+' (.head _)) (by decide)
      · obtain rfl := (List.cons.inj same_chars).2
        exact ⟨below, some_digit, all, same⟩
  · rename_i unsigned
    rw [written]
    constructor
    · rintro ⟨below, some_digit, all, same⟩
      exact ⟨below, chars, some_digit, all, .inl rfl, same⟩
    · rintro ⟨below, digits, some_digit, all, rfl | signed, same⟩
      · exact ⟨below, some_digit, all, same⟩
      · exact absurd signed (unsigned digits)

example : wholeNumber? 256 "+007".toList = some 7 ∧ wholeNumber? 256 "256".toList = none ∧
    wholeNumber? 256 "+".toList = none ∧ wholeNumber? 256 "-1".toList = none := by decide +kernel

end IngestLedger.Text
