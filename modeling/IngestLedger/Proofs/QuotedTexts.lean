import IngestLedger.Proofs.CharacterTables
import IngestLedger.Text.Quoted

/-!
# What quoted texts tell

Whatever a text holds, it is quoted in printable characters, and the quotation tells the text: an
escape is read off the front of whatever it stands before. So two texts are quoted alike only if
they are equal.

Main statements:

* `Text.isPrintable_of_mem_quoted`: a quotation is printable.
* `Text.unescape_escape_append`: an escape is read back, with anything behind it.
* `Text.quoted_injective`: a quotation tells its text.
-/

namespace IngestLedger.Text

/-! ### Hexadecimal digits -/

/-- The number that hexadecimal digits write. -/
def ofHexDigits (digits : List Char) : Nat :=
  digits.foldl (fun n c => 16 * n + (hexValue? c).getD 0) 0

/-- A digit in lower case has its own value and stands between 0 and f. -/
theorem digitChar_of_lt {n : Nat} (small : n < 16) : hexValue? n.digitChar = some n ∧
    0x30 ≤ n.digitChar.toNat ∧ n.digitChar.toNat ≤ 0x66 := by
  have known : ∀ n < 16, hexValue? n.digitChar = some n ∧ 0x30 ≤ n.digitChar.toNat ∧
      n.digitChar.toNat ≤ 0x66 := by decide +kernel
  exact known n small

/-- The digits of a number are read back, and they stand between 0 and f. -/
theorem ofHexDigits_hexDigits (n : Nat) : ofHexDigits (hexDigits n) = n ∧
    ∀ c ∈ hexDigits n, 0x30 ≤ c.toNat ∧ c.toNat ≤ 0x66 := by
  induction n using Nat.strongRecOn with
  | ind n ih =>
    unfold hexDigits ofHexDigits at ih ⊢
    rcases Nat.lt_or_ge n 16 with small | large
    · obtain ⟨value, between⟩ := digitChar_of_lt small
      rw [Nat.toDigits_of_lt_base small]
      exact ⟨by simp [value], fun c inside => List.mem_singleton.1 inside ▸ between⟩
    · obtain ⟨front, front_between⟩ := ih (n / 16) (by omega)
      obtain ⟨value, between⟩ := digitChar_of_lt (Nat.mod_lt n (show 16 > 0 by decide))
      rw [Nat.toDigits_of_base_le (by decide) large]
      constructor
      · rw [List.foldl_append, front, List.foldl_cons, List.foldl_nil, value, Option.getD_some,
          Nat.div_add_mod]
      · intro c inside
        rcases List.mem_append.1 inside with inside | inside
        · exact front_between c inside
        · exact List.mem_singleton.1 inside ▸ between

/-! ### Escapes -/

/-- The characters that are written as a backslash and a sign. -/
def signs : List (Char × Char) := [('\x00', '0'), ('\t', 't'), ('\r', 'r'), ('\n', 'n')]

/-- The four ways in which a character is written. -/
theorem escape_cases (quote c : Char) :
    (∃ sign, (c, sign) ∈ signs ∧ escape quote c = ['\\', sign]) ∨
    ((c = '\\' ∨ c = quote) ∧ escape quote c = ['\\', c]) ∨
    (c ≠ '\\' ∧ isPrintable c = true ∧ escape quote c = [c]) ∨
    escape quote c = '\\' :: 'u' :: '\x7b' :: (hexDigits c.toNat ++ ['\x7d']) := by
  unfold escape
  split
  · rename_i is_nul
    exact .inl ⟨'0', by simp [signs, is_nul], rfl⟩
  split
  · rename_i is_tab
    exact .inl ⟨'t', by simp [signs, is_tab], rfl⟩
  split
  · rename_i is_return
    exact .inl ⟨'r', by simp [signs, is_return], rfl⟩
  split
  · rename_i is_line_end
    exact .inl ⟨'n', by simp [signs, is_line_end], rfl⟩
  split
  · rename_i mark
    exact .inr (.inl ⟨mark, rfl⟩)
  rename_i no_mark
  split
  · rename_i shown
    exact .inr (.inr (.inl ⟨fun slash => no_mark (.inl slash), shown, rfl⟩))
  · exact .inr (.inr (.inr rfl))

/-- An escape is printable if the mark around it is. -/
theorem isPrintable_of_mem_escape {quote c d : Char} (mark : isPrintable quote = true)
    (inside : d ∈ escape quote c) : isPrintable d = true := by
  have plain : isPrintable '\\' = true ∧ isPrintable 'u' = true ∧ isPrintable '\x7b' = true ∧
      isPrintable '\x7d' = true ∧ ∀ pair ∈ signs, isPrintable pair.2 = true := by decide +kernel
  obtain ⟨slash, letter, opening, closing, sign_shown⟩ := plain
  rcases escape_cases quote c with ⟨sign, known, h⟩ | ⟨same, h⟩ | ⟨-, shown, h⟩ | h
  · rw [h] at inside
    rcases List.mem_cons.1 inside with rfl | inside
    · exact slash
    · exact List.mem_singleton.1 inside ▸ sign_shown _ known
  · rw [h] at inside
    rcases List.mem_cons.1 inside with rfl | inside
    · exact slash
    · rw [List.mem_singleton.1 inside]
      exact same.elim (fun same => same ▸ slash) (fun same => same ▸ mark)
  · rw [h] at inside
    exact List.mem_singleton.1 inside ▸ shown
  · simp only [h, List.mem_cons, List.mem_append, List.not_mem_nil, or_false] at inside
    rcases inside with rfl | rfl | rfl | digit | rfl
    · exact slash
    · exact letter
    · exact opening
    · obtain ⟨low, high⟩ := (ofHexDigits_hexDigits c.toNat).2 d digit
      rw [isPrintable_of_ascii (by omega)]
      exact decide_eq_true ⟨by omega, by omega⟩
    · exact closing

/-- A quotation is printable, whatever the text. -/
theorem isPrintable_of_mem_quoted {text : String} {c : Char} (inside : c ∈ (quoted text).toList) :
    isPrintable c = true := by
  have mark : isPrintable '"' = true := by decide +kernel
  simp only [quoted, String.toList_ofList, List.mem_cons, List.mem_append, List.mem_flatMap,
    List.not_mem_nil, or_false] at inside
  rcases inside with rfl | ⟨d, -, inside⟩ | rfl
  · exact mark
  · exact isPrintable_of_mem_escape mark inside
  · exact mark

example : (quoted "\n\x7f\u0301").toList.all isPrintable = true ∧
    ("\n\x7f\u0301".toList.all fun c => !isPrintable c) = true := by decide +kernel

/-! ### Quotations tell their texts -/

/-- The character that is written at the front of characters, and the characters behind it. -/
def unescape : List Char → Option (Char × List Char)
  | [] | ['\\'] => none
  | '\\' :: 'u' :: '\x7b' :: rest =>
    let digits := rest.takeWhile (· ≠ '\x7d')
    some (Char.ofNat (ofHexDigits digits), rest.drop (digits.length + 1))
  | '\\' :: sign :: rest =>
    some (((signs.find? (·.2 = sign)).map Prod.fst).getD sign, rest)
  | c :: rest => some (c, rest)

theorem unescape_sign {sign : Char} (other : sign ≠ 'u') (rest : List Char) :
    unescape ('\\' :: sign :: rest) =
      some (((signs.find? (·.2 = sign)).map Prod.fst).getD sign, rest) := by
  rw [unescape]
  rintro later rfl
  exact absurd rfl other

theorem unescape_plain {c : Char} (no_slash : c ≠ '\\') (rest : List Char) :
    unescape (c :: rest) = some (c, rest) := by
  rw [unescape] <;> simp [no_slash]

theorem unescape_number (c : Char) (rest : List Char) :
    unescape ('\\' :: 'u' :: '\x7b' :: (hexDigits c.toNat ++ '\x7d' :: rest)) = some (c, rest) := by
  obtain ⟨value, between⟩ := ofHexDigits_hexDigits c.toNat
  have inside : ∀ d ∈ hexDigits c.toNat, decide (d ≠ '\x7d') = true := by
    intro d digit
    refine decide_eq_true ?_
    rintro rfl
    exact absurd (between _ digit).2 (by decide)
  have digits : (hexDigits c.toNat ++ '\x7d' :: rest).takeWhile (· ≠ '\x7d') =
      hexDigits c.toNat := by
    rw [List.takeWhile_append_of_pos inside, List.takeWhile_cons_of_neg (by decide),
      List.append_nil]
  rw [unescape]
  simp only [digits, value, Char.ofNat_toNat]
  rw [List.drop_length_add_append]
  rfl

/-- A character is read back from how it is written, whatever stands behind it, if the mark is no
letter or digit of an escape. -/
theorem unescape_escape_append {quote : Char} (mark : quote ≠ 'u')
    (no_sign : signs.find? (·.2 = quote) = none) (c : Char) (rest : List Char) :
    unescape (escape quote c ++ rest) = some (c, rest) := by
  rcases escape_cases quote c with ⟨sign, known, h⟩ | ⟨same, h⟩ | ⟨no_slash, -, h⟩ | h
  · rw [h]
    simp only [signs, List.mem_cons, Prod.mk.injEq, List.not_mem_nil, or_false] at known
    rcases known with ⟨rfl, rfl⟩ | ⟨rfl, rfl⟩ | ⟨rfl, rfl⟩ | ⟨rfl, rfl⟩ <;>
      exact unescape_sign (by decide) rest
  · rw [h]
    rcases same with rfl | rfl
    · exact unescape_sign (by decide) rest
    · refine (unescape_sign mark rest).trans ?_
      rw [no_sign]
      rfl
  · rw [h]
    exact unescape_plain no_slash rest
  · rw [h]
    simpa using unescape_number c rest

/-- What is written before a closing mark is told by reading one character after the other. -/
theorem eq_of_flatMap_escape (quote : Char) (mark : quote ≠ 'u') (no_slash : quote ≠ '\\')
    (no_sign : signs.find? (·.2 = quote) = none) {chars others : List Char}
    (same : chars.flatMap (escape quote) ++ [quote] = others.flatMap (escape quote) ++ [quote]) :
    chars = others := by
  have read := unescape_escape_append mark no_sign
  -- nothing stands behind the closing mark, so no character is read there
  have closed (c : Char) (rest : List Char) :
      [quote] ≠ (c :: rest).flatMap (escape quote) ++ [quote] := by
    intro ends
    have first := unescape_plain no_slash []
    rw [ends, List.flatMap_cons, List.append_assoc, read] at first
    simpa using (Prod.mk.inj (Option.some.inj first)).2
  induction chars generalizing others with
  | nil =>
    cases others with
    | nil => rfl
    | cons d others => exact absurd same (closed d others)
  | cons c chars ih =>
    cases others with
    | nil => exact absurd same.symm (closed c chars)
    | cons d others =>
      have front := congrArg unescape same
      rw [List.flatMap_cons, List.flatMap_cons, List.append_assoc, List.append_assoc, read,
        read] at front
      obtain ⟨rfl, rest⟩ := Prod.mk.inj (Option.some.inj front)
      rw [ih rest]

/-- Two texts that are quoted alike are equal. -/
theorem quoted_injective {text other : String} (same : quoted text = quoted other) :
    text = other :=
  String.toList_inj.1 <| eq_of_flatMap_escape '"' (by decide) (by decide) (by decide)
    (List.cons.inj (String.ofList_injective same)).2

example : quoted "\n" ≠ quoted "\\n" := by decide +kernel

end IngestLedger.Text
