import IngestLedger.Text.Blank
import IngestLedger.Text.Letters
import IngestLedger.Text.Printable
import Mathlib.Data.List.Chain

/-!
# What the tables of characters say

The boundaries in each table stand in ascending order. So a code point lies in a run if and only if
an odd number of the boundaries stand at or below it, and a table can be told at any character. On
the ASCII characters the tables say what is known of those: all but the controls are printable, the
letters and digits are the Latin ones. No blank is a letter or a digit.

Main statements:

* `Text.inRuns_iff`: when a code point lies in a run.
* `Text.isPrintable_iff`, `Text.isLetter_iff`: when a character is hidden, and when it is a letter.
* `Text.isPrintable_of_ascii`, `Text.isLetterOrDigit_of_ascii`: the ASCII characters.
-/

namespace IngestLedger.Text

/-! ### Runs -/

/-- A code point lies in a run if and only if an odd number of boundaries stand at or below it. -/
theorem inRuns_iff {boundaries : List Nat} (ascending : boundaries.IsChain (· < ·)) (code : Nat) :
    inRuns code boundaries = true ↔ boundaries.countP (· ≤ code) % 2 = 1 := by
  have sorted := List.isChain_iff_pairwise.1 ascending
  clear ascending
  induction boundaries with
  | nil => simp [inRuns]
  | cons boundary boundaries ih =>
    obtain ⟨above, sorted⟩ := List.pairwise_cons.1 sorted
    by_cases before : code < boundary
    · -- no boundary stands at or below the code point, since they ascend
      have none_below : boundaries.countP (· ≤ code) = 0 := by
        refine List.countP_eq_zero.2 fun later inside => ?_
        have beyond := above later inside
        simp only [decide_eq_true_eq]
        omega
      rw [List.countP_cons_of_neg (by simpa using before), none_below]
      simp [inRuns, before]
    · rw [List.countP_cons_of_pos (by simpa using before)]
      simp only [inRuns, before, if_false, Bool.not_eq_true', ← Bool.not_eq_true, ih sorted]
      omega

theorem isChain_hiddenRuns : hiddenRuns.IsChain (· < ·) := by decide +kernel

theorem isChain_letterRuns : letterRuns.IsChain (· < ·) := by decide +kernel

theorem isChain_digitRuns : digitRuns.IsChain (· < ·) := by decide +kernel

/-- When a character is shown as itself. -/
theorem isPrintable_iff {c : Char} :
    isPrintable c = true ↔ hiddenRuns.countP (· ≤ c.toNat) % 2 = 0 := by
  rw [isPrintable, Bool.not_eq_true', ← Bool.not_eq_true, inRuns_iff isChain_hiddenRuns]
  omega

example : isPrintable 'é' ∧ isPrintable '😀' ∧ isPrintable '\u00a0' = false ∧
    isPrintable '\u0301' = false := by
  decide +kernel

/-- When a character is a letter. -/
theorem isLetter_iff {c : Char} :
    isLetter c = true ↔ letterRuns.countP (· ≤ c.toNat) % 2 = 1 :=
  inRuns_iff isChain_letterRuns _

/-- When a character is a letter or a digit. -/
theorem isLetterOrDigit_iff {c : Char} : isLetterOrDigit c = true ↔
    letterRuns.countP (· ≤ c.toNat) % 2 = 1 ∨ digitRuns.countP (· ≤ c.toNat) % 2 = 1 := by
  rw [isLetterOrDigit, Bool.or_eq_true, isLetter_iff, inRuns_iff isChain_digitRuns]

example : isLetter '日' ∧ isLetter '²' = false ∧ isLetterOrDigit '²' ∧
    isLetterOrDigit '\u0661' ∧ isLetterOrDigit '😀' = false := by
  decide +kernel

/-! ### ASCII characters -/

/-- What holds of all characters of ASCII can be checked one by one. -/
theorem of_ascii {P : Char → Prop} (h : ∀ code < 0x80, P (Char.ofNat code)) {c : Char}
    (ascii : c.toNat < 0x80) : P c := by
  have known := h c.toNat ascii
  rwa [Char.ofNat_toNat] at known

/-- All ASCII characters but the controls are printable. -/
theorem isPrintable_of_ascii {c : Char} (ascii : c.toNat < 0x80) :
    isPrintable c = decide (0x20 ≤ c.toNat ∧ c.toNat ≠ 0x7f) :=
  of_ascii (P := fun c => isPrintable c = decide (0x20 ≤ c.toNat ∧ c.toNat ≠ 0x7f))
    (by decide +kernel) ascii

/-- The letters and digits of ASCII are the Latin ones. -/
theorem isLetterOrDigit_of_ascii {c : Char} (ascii : c.toNat < 0x80) :
    isLetter c = c.isAlpha ∧ isLetterOrDigit c = c.isAlphanum :=
  of_ascii (P := fun c => isLetter c = c.isAlpha ∧ isLetterOrDigit c = c.isAlphanum)
    (by decide +kernel) ascii

/-! ### Blanks -/

/-- The code points of blanks. -/
def blankCodes : List Nat :=
  [0x9, 0xa, 0xb, 0xc, 0xd, 0x20, 0x85, 0xa0, 0x1680, 0x2000, 0x2001, 0x2002, 0x2003, 0x2004,
    0x2005, 0x2006, 0x2007, 0x2008, 0x2009, 0x200a, 0x2028, 0x2029, 0x202f, 0x205f, 0x3000]

theorem isBlank_iff {c : Char} : isBlank c = true ↔ c.toNat ∈ blankCodes := by
  simp only [isBlank, blankCodes, Bool.or_eq_true, Bool.and_eq_true, decide_eq_true_eq,
    List.mem_cons, List.not_mem_nil, or_false]
  omega

/-- No blank is a letter or a digit. -/
theorem isLetterOrDigit_of_isBlank {c : Char} (blank : isBlank c = true) :
    isLetterOrDigit c = false := by
  have known : ∀ code ∈ blankCodes,
      (inRuns code letterRuns || inRuns code digitRuns) = false := by decide +kernel
  exact known c.toNat (isBlank_iff.1 blank)

end IngestLedger.Text
