import IngestLedger.Json.Record
import Mathlib.Data.List.DropRight
import Mathlib.Data.List.TakeDrop

/-!
# JSON texts

A text may write a value in many ways: with blanks between the tokens, with characters of strings
escaped or not, with numbers in several forms. The reader takes each of these texts for the value
that it writes, whatever comes after it, so long as that does not go on with a number.

Main definitions:

* `Json.Spells`: the texts that write a value, or a part of one.
* `Json.Writes`: a document writes a value.

Main statements:

* `Json.Spells.reads`, `Json.readValue_of_spells`: a text that writes a value is read as that value.
-/

namespace IngestLedger.Json

/-! ### Blanks -/

/-- Blanks that may stand between tokens, and nothing else. -/
def IsBlanks (chars : List Char) : Prop := ∀ c ∈ chars, isBlank c = true

theorem isBlanks_nil : IsBlanks [] := nofun

theorem skipBlanks_append {blanks : List Char} (h : IsBlanks blanks) (rest : List Char) :
    skipBlanks (blanks ++ rest) = skipBlanks rest :=
  List.dropWhile_append_of_pos h

theorem skipBlanks_of_isBlanks {blanks : List Char} (h : IsBlanks blanks) :
    skipBlanks blanks = [] := by
  have all := skipBlanks_append h []
  rwa [List.append_nil] at all

theorem skipBlanks_cons {c : Char} (visible : isBlank c = false) (rest : List Char) :
    skipBlanks (c :: rest) = c :: rest := by
  rw [skipBlanks, List.dropWhile_cons, visible]
  rfl

theorem skipBlanks_skipBlanks (chars : List Char) :
    skipBlanks (skipBlanks chars) = skipBlanks chars :=
  List.dropWhile_idempotent isBlank chars

/-! ### Strings -/

/-- A part of a string as it may be written: a character as itself or by a short escape, and a
16-bit unit by its four digits. -/
inductive Piece.Spells : Piece → List Char → Prop
  | itself {c : Char} (printable : ¬ c.toNat < 0x20) (no_quote : c ≠ '"')
    (no_backslash : c ≠ '\\') : Spells (.char c) [c]
  | short {e c : Char} (known : shortEscape? e = some c) : Spells (.char c) ['\\', e]
  | unit {a b c d : Char} {n : Nat} (digits : unit? a b c d = some n) :
    Spells (.unit n) ['\\', 'u', a, b, c, d]

/-- The parts of a string as they may be written between its quotes. -/
inductive SpellsPieces : List Piece → List Char → Prop
  | nil : SpellsPieces [] []
  | cons {piece : Piece} {pieces : List Piece} {front body : List Char} (first : piece.Spells front)
    (later : SpellsPieces pieces body) : SpellsPieces (piece :: pieces) (front ++ body)

/-- A string in its quotes, and the text that its parts form, if they form one. -/
inductive SpellsString : Option String → List Char → Prop
  | quoted {pieces : List Piece} {body : List Char} (written : SpellsPieces pieces body) :
    SpellsString ((joinPieces pieces).map String.ofList) ('"' :: (body ++ ['"']))

theorem readPieces_of_spells {pieces : List Piece} {body : List Char}
    (h : SpellsPieces pieces body) (rest : List Char) :
    readPieces (body ++ '"' :: rest) = some (pieces, rest) := by
  induction h with
  | nil => exact readPieces.eq_2 rest
  | cons first later ih =>
    rw [List.append_assoc]
    cases first with
    | itself printable no_quote no_backslash =>
      rw [List.singleton_append, readPieces.eq_5 _ _ (by simpa using no_quote)
        (fun _ _ _ _ _ same _ => no_backslash same) (fun _ _ same _ => no_backslash same), ih]
      simp [printable, no_backslash]
    | @short e c known =>
      have letter : e ≠ 'u' := by
        rintro rfl
        cases known
      simp only [List.cons_append, List.nil_append]
      rw [readPieces.eq_4 _ _ (fun _ _ _ _ _ same _ => letter same), ih, known]
    | unit digits =>
      simp only [List.cons_append, List.nil_append]
      rw [readPieces.eq_3, ih, digits]

/-- A string is read up to its closing quote. -/
theorem readString_of_spells {text : Option String} {chars : List Char}
    (h : SpellsString text chars) (rest : List Char) :
    ∃ tail, chars = '"' :: tail ∧ readString (tail ++ rest) = some (text, rest) := by
  obtain ⟨written⟩ := h
  refine ⟨_, rfl, ?_⟩
  rw [readString, List.append_assoc, List.singleton_append, readPieces_of_spells written]

/-! ### Numbers -/

/-- Decimal digits, at least one. -/
def IsDigits (digits : List Char) : Prop := digits ≠ [] ∧ ∀ c ∈ digits, c.isDigit = true

/-- The digits of a whole number: a zero does not stand in front of other digits. -/
structure IsWhole (digits : List Char) : Prop where
  decimal : IsDigits digits
  no_zero : ∀ c later, digits ≠ '0' :: c :: later

/-- The digits behind a point, if there is one. -/
inductive SpellsFraction : List Char → List Char → Prop
  | absent : SpellsFraction [] []
  | digits {digits : List Char} (h : IsDigits digits) : SpellsFraction digits ('.' :: digits)

/-- The number behind an exponent mark, if there is one. -/
inductive SpellsExponent : Option Int → List Char → Prop
  | absent : SpellsExponent none []
  | unsigned {mark : Char} {digits : List Char} (marked : mark = 'e' ∨ mark = 'E')
    (h : IsDigits digits) : SpellsExponent (some (Nat.ofDigitChars 10 digits 0)) (mark :: digits)
  | plus {mark : Char} {digits : List Char} (marked : mark = 'e' ∨ mark = 'E')
    (h : IsDigits digits) :
      SpellsExponent (some (Nat.ofDigitChars 10 digits 0)) (mark :: '+' :: digits)
  | minus {mark : Char} {digits : List Char} (marked : mark = 'e' ∨ mark = 'E')
    (h : IsDigits digits) :
      SpellsExponent (some (-Nat.ofDigitChars 10 digits 0)) (mark :: '-' :: digits)

/-- The number of the given sign, digits and exponent. -/
def numberOf (negative : Bool) (whole fraction : List Char) (exponent : Option Int) : Number :=
  if !negative && fraction.isEmpty && exponent.isNone then .ofPlainDigits whole
  else .ofDigits whole fraction (exponent.getD 0)

/-- A number as it may be written. -/
inductive SpellsNumber : Number → List Char → Prop
  | positive {whole fraction point mark : List Char} {exponent : Option Int}
    (digits : IsWhole whole) (behind : SpellsFraction fraction point)
    (power : SpellsExponent exponent mark) :
    SpellsNumber (numberOf false whole fraction exponent) (whole ++ (point ++ mark))
  | negative {whole fraction point mark : List Char} {exponent : Option Int}
    (digits : IsWhole whole) (behind : SpellsFraction fraction point)
    (power : SpellsExponent exponent mark) :
    SpellsNumber (numberOf true whole fraction exponent) ('-' :: (whole ++ (point ++ mark)))

/-- Characters that go on with a number. -/
def goesOn (c : Char) : Bool := c.isDigit || c = '.' || c = 'e' || c = 'E'

/-- What comes after a number does not go on with it. -/
def Stops (rest : List Char) : Prop := ∀ c ∈ rest.head?, goesOn c = false

theorem readDigits_append {digits rest : List Char} (h : ∀ c ∈ digits, c.isDigit = true)
    (stops : ∀ c ∈ rest.head?, c.isDigit = false) :
    readDigits (digits ++ rest) = (digits, rest) := by
  have end_digits : rest.takeWhile Char.isDigit = [] ∧ rest.dropWhile Char.isDigit = rest := by
    cases rest with
    | nil => exact ⟨rfl, rfl⟩
    | cons c rest => simp [stops c rfl]
  rw [readDigits, List.span_eq_takeWhile_dropWhile, List.takeWhile_append_of_pos h,
    List.dropWhile_append_of_pos h, end_digits.1, end_digits.2, List.append_nil]

/-- Neither a digit nor a point comes where an exponent may stand. -/
theorem head_of_spellsExponent {exponent : Option Int} {mark rest : List Char}
    (h : SpellsExponent exponent mark) (stops : Stops rest) :
    ∀ c ∈ (mark ++ rest).head?, c.isDigit = false ∧ c ≠ '.' := by
  have marked : ∀ c : Char, c = 'e' ∨ c = 'E' → c.isDigit = false ∧ c ≠ '.' := by
    rintro c (rfl | rfl) <;> decide
  intro c first
  cases h with
  | absent =>
    have quiet := stops c first
    simp only [goesOn, Bool.or_eq_false_iff, decide_eq_false_iff_not] at quiet
    exact quiet.1.1
  | unsigned marks => exact Option.some.inj first ▸ marked _ marks
  | plus marks => exact Option.some.inj first ▸ marked _ marks
  | minus marks => exact Option.some.inj first ▸ marked _ marks

theorem readFraction_of_spells {fraction point rest : List Char}
    (h : SpellsFraction fraction point)
    (stops : ∀ c ∈ rest.head?, c.isDigit = false ∧ c ≠ '.') :
    readFraction (point ++ rest) = some (fraction, rest) := by
  cases h with
  | absent =>
    refine readFraction.eq_2 rest fun later same => (stops '.' ?_).2 rfl
    rw [same]
    rfl
  | digits h =>
    have read := readDigits_append h.2 fun c first => (stops c first).1
    rw [List.cons_append, readFraction, read]
    split
    · rename_i none
      exact absurd (Prod.mk.inj none).1 h.1
    · rfl

theorem readExponent_of_spells {exponent : Option Int} {mark rest : List Char}
    (h : SpellsExponent exponent mark) (stops : Stops rest) :
    readExponent (mark ++ rest) = some (exponent, rest) := by
  have end_digits : ∀ c ∈ rest.head?, c.isDigit = false := by
    intro c first
    have quiet := stops c first
    simp only [goesOn, Bool.or_eq_false_iff] at quiet
    exact quiet.1.1.1
  cases h with
  | absent =>
    cases rest with
    | nil => rfl
    | cons c rest =>
      have quiet := stops c rfl
      simp only [goesOn, Bool.or_eq_false_iff, decide_eq_false_iff_not] at quiet
      simp [readExponent, quiet]
  | @unsigned _ digits marked h =>
    have read := readDigits_append h.2 end_digits
    obtain ⟨some_digits, decimal⟩ := h
    cases digits with
    | nil => exact absurd rfl some_digits
    | cons d digits =>
      -- a digit is no sign
      have minus : d ≠ '-' := by
        rintro rfl
        exact absurd (decimal '-' (.head _)) (by decide)
      have plus : d ≠ '+' := by
        rintro rfl
        exact absurd (decimal '+' (.head _)) (by decide)
      rw [List.cons_append] at read
      simp [readExponent, marked, minus, plus, read]
  | @plus _ digits marked h =>
    have read := readDigits_append h.2 end_digits
    cases digits with
    | nil => exact absurd rfl h.1
    | cons d digits =>
      rw [List.cons_append] at read
      simp [readExponent, marked, read]
  | @minus _ digits marked h =>
    have read := readDigits_append h.2 end_digits
    cases digits with
    | nil => exact absurd rfl h.1
    | cons d digits =>
      rw [List.cons_append] at read
      simp [readExponent, marked, read]

theorem readUnsigned_of_spells {negative : Bool} {whole fraction point mark rest : List Char}
    {exponent : Option Int} (digits : IsWhole whole) (behind : SpellsFraction fraction point)
    (power : SpellsExponent exponent mark) (stops : Stops rest) :
    readUnsigned negative (whole ++ (point ++ mark) ++ rest) =
      some (numberOf negative whole fraction exponent, rest) := by
  have after_point := head_of_spellsExponent power stops
  have after_whole : ∀ c ∈ (point ++ (mark ++ rest)).head?, c.isDigit = false := by
    cases behind with
    | absent => exact fun c first => (after_point c first).1
    | digits => exact fun c first => Option.some.inj first ▸ rfl
  have read := readDigits_append digits.decimal.2 after_whole
  have read_point := readFraction_of_spells behind after_point
  have read_mark := readExponent_of_spells power stops
  rw [List.append_assoc, List.append_assoc, readUnsigned, read]
  split
  · rename_i none
    exact absurd (Prod.mk.inj none).1 digits.decimal.1
  · rename_i zero
    exact absurd (Prod.mk.inj zero).1 (digits.no_zero _ _)
  · rename_i same
    obtain ⟨rfl, rfl⟩ := Prod.mk.inj same
    rw [read_point]
    simp only [read_mark, numberOf]
    split <;> rfl

/-- A number is read up to where it stops. -/
theorem readNumber_of_spells {n : Number} {text rest : List Char} (h : SpellsNumber n text)
    (stops : Stops rest) : readNumber (text ++ rest) = some (n, rest) := by
  cases h with
  | @positive whole _ point mark _ digits behind power =>
    refine Eq.trans ?_ (readUnsigned_of_spells digits behind power stops)
    obtain ⟨d, ds, rfl⟩ := List.exists_cons_of_ne_nil digits.decimal.1
    refine readNumber.eq_2 _ fun later same => ?_
    have decimal := digits.decimal.2 d (.head _)
    rw [(List.cons.inj same).1] at decimal
    exact absurd decimal (by decide)
  | negative digits behind power => exact readUnsigned_of_spells digits behind power stops

/-! ### Values -/

/-- What a part of a text writes: a value, alone or with the blanks around it, the items of an
array or the members of an object with the closing mark. -/
inductive Phrase where
  | value (value : Value)
  | slot (value : Value)
  | items (items : List Value)
  | members (members : List (Option String × Value))

/-- The name of a member with the blanks around it. -/
inductive SpellsName : Option String → List Char → Prop
  | between {name : Option String} {before quoted after : List Char}
    (blank_before : IsBlanks before) (h : SpellsString name quoted)
    (blank_after : IsBlanks after) : SpellsName name (before ++ (quoted ++ after))

/-- The texts that write a value, or a part of one. -/
inductive Spells : Phrase → List Char → Prop
  | null : Spells (.value .null) ['n', 'u', 'l', 'l']
  | true : Spells (.value (.bool true)) ['t', 'r', 'u', 'e']
  | false : Spells (.value (.bool false)) ['f', 'a', 'l', 's', 'e']
  | string {text : Option String} {chars : List Char} (h : SpellsString text chars) :
    Spells (.value (.string text)) chars
  | number {n : Number} {chars : List Char} (h : SpellsNumber n chars) :
    Spells (.value (.number n)) chars
  | emptyArray {blanks : List Char} (blank : IsBlanks blanks) :
    Spells (.value (.array [])) ('[' :: (blanks ++ [']']))
  | array {items : List Value} {body : List Char} (h : Spells (.items items) body) :
    Spells (.value (.array items)) ('[' :: body)
  | emptyObject {blanks : List Char} (blank : IsBlanks blanks) :
    Spells (.value (.object [])) ('\x7b' :: (blanks ++ ['\x7d']))
  | object {members : List (Option String × Value)} {body : List Char}
    (h : Spells (.members members) body) : Spells (.value (.object members)) ('\x7b' :: body)
  | slot {value : Value} {before body after : List Char} (blank_before : IsBlanks before)
    (h : Spells (.value value) body) (blank_after : IsBlanks after) :
    Spells (.slot value) (before ++ (body ++ after))
  | lastItem {item : Value} {body : List Char} (h : Spells (.slot item) body) :
    Spells (.items [item]) (body ++ [']'])
  | nextItem {item : Value} {items : List Value} {body later : List Char}
    (h : Spells (.slot item) body) (others : Spells (.items items) later) :
    Spells (.items (item :: items)) (body ++ ',' :: later)
  | lastMember {name : Option String} {value : Value} {front body : List Char}
    (named : SpellsName name front) (h : Spells (.slot value) body) :
    Spells (.members [(name, value)]) (front ++ ':' :: (body ++ ['\x7d']))
  | nextMember {name : Option String} {value : Value} {members : List (Option String × Value)}
    {front body later : List Char} (named : SpellsName name front) (h : Spells (.slot value) body)
    (others : Spells (.members members) later) :
    Spells (.members ((name, value) :: members)) (front ++ ':' :: (body ++ ',' :: later))

/-- Behind its blanks a text goes on with something other than a closing mark. -/
def Opens (text : List Char) : Prop :=
  ∃ before c later, IsBlanks before ∧ text = before ++ c :: later ∧ isBlank c = false ∧
    c ≠ ']' ∧ c ≠ '\x7d'

theorem opens_cons {c : Char} {later : List Char} (visible : isBlank c = false)
    (no_bracket : c ≠ ']') (no_brace : c ≠ '\x7d') : Opens (c :: later) :=
  ⟨[], c, later, isBlanks_nil, rfl, visible, no_bracket, no_brace⟩

theorem Opens.append {text : List Char} (h : Opens text) (later : List Char) :
    Opens (text ++ later) := by
  obtain ⟨before, c, body, blank, rfl, marks⟩ := h
  exact ⟨before, c, body ++ later, blank, by rw [List.append_assoc, List.cons_append], marks⟩

theorem Opens.after {blanks text : List Char} (h : Opens text) (blank : IsBlanks blanks) :
    Opens (blanks ++ text) := by
  obtain ⟨before, c, body, more, rfl, marks⟩ := h
  refine ⟨blanks ++ before, c, body, ?_, by rw [List.append_assoc], marks⟩
  simpa only [IsBlanks, List.forall_mem_append] using And.intro blank more

theorem Opens.skipBlanks_eq {text : List Char} (h : Opens text) :
    ∃ c later, skipBlanks text = c :: later ∧ c ≠ ']' ∧ c ≠ '\x7d' := by
  obtain ⟨before, c, later, blank, rfl, visible, marks⟩ := h
  exact ⟨c, later, by rw [skipBlanks_append blank, skipBlanks_cons visible], marks⟩

theorem opens_of_spellsString {text : Option String} {chars : List Char}
    (h : SpellsString text chars) : Opens chars := by
  obtain ⟨_⟩ := h
  exact opens_cons rfl (by decide) (by decide)

theorem opens_of_spellsName {name : Option String} {front : List Char}
    (h : SpellsName name front) : Opens front := by
  obtain ⟨blank, quoted, -⟩ := h
  exact ((opens_of_spellsString quoted).append _).after blank

/-- A number begins with a digit or with its sign. -/
theorem head_of_spellsNumber {n : Number} {text : List Char} (h : SpellsNumber n text) :
    ∃ c later, text = c :: later ∧ (c = '-' ∨ c.isDigit = true) := by
  cases h with
  | positive digits behind power =>
    obtain ⟨d, ds, rfl⟩ := List.exists_cons_of_ne_nil digits.decimal.1
    exact ⟨d, _, rfl, .inr (digits.decimal.2 d (.head _))⟩
  | negative digits behind power => exact ⟨'-', _, rfl, .inl rfl⟩

theorem isBlank_of_number {c : Char} (h : c = '-' ∨ c.isDigit = true) : isBlank c = false := by
  rw [Bool.eq_false_iff]
  intro blank
  simp only [isBlank, Bool.or_eq_true, decide_eq_true_eq] at blank
  obtain ((rfl | rfl) | rfl) | rfl := blank <;> exact absurd h (by decide)

theorem Spells.opens {phrase : Phrase} {text : List Char} (h : Spells phrase text) :
    Opens text := by
  induction h with
  | null | true | false | emptyArray | array | emptyObject | object =>
    exact opens_cons rfl (by decide) (by decide)
  | string h => exact opens_of_spellsString h
  | number h =>
    obtain ⟨c, later, rfl, first⟩ := head_of_spellsNumber h
    refine opens_cons ?_ ?_ ?_
    · exact isBlank_of_number first
    · rintro rfl
      exact absurd first (by decide)
    · rintro rfl
      exact absurd first (by decide)
  | slot blank _ _ ih => exact (ih.append _).after blank
  | lastItem _ ih | nextItem _ _ ih _ => exact ih.append _
  | lastMember named _ _ | nextMember named _ _ _ _ => exact (opens_of_spellsName named).append _

theorem stops_cons (c : Char) (rest : List Char) (quiet : goesOn c = false) : Stops (c :: rest) :=
  fun _ first => Option.some.inj first ▸ quiet

theorem Stops.after {blanks rest : List Char} (h : Stops rest) (blank : IsBlanks blanks) :
    Stops (blanks ++ rest) := by
  cases blanks with
  | nil => exact h
  | cons c blanks =>
    refine stops_cons c _ ?_
    have first := blank c (.head _)
    simp only [isBlank, Bool.or_eq_true, decide_eq_true_eq] at first
    obtain ((rfl | rfl) | rfl) | rfl := first <;> rfl

theorem readValueWith_skipBlanks (fuel : Nat) (chars : List Char) :
    readValueWith fuel (skipBlanks chars) = readValueWith fuel chars := by
  cases fuel with
  | zero => simp only [readValueWith]
  | succ fuel => simp only [readValueWith, skipBlanks_skipBlanks]

theorem readItems_skipBlanks (fuel : Nat) (chars : List Char) :
    readItems fuel (skipBlanks chars) = readItems fuel chars := by
  cases fuel with
  | zero => simp only [readItems]
  | succ fuel => simp only [readItems, readValueWith_skipBlanks]

theorem readMembers_skipBlanks (fuel : Nat) (chars : List Char) :
    readMembers fuel (skipBlanks chars) = readMembers fuel chars := by
  cases fuel with
  | zero => simp only [readMembers]
  | succ fuel => simp only [readMembers, skipBlanks_skipBlanks]

/-! ### Reading what was written -/

/-- What is read off a text in front of the rest that follows it. -/
def Phrase.IsRead (fuel : Nat) (text rest : List Char) : Phrase → Prop
  | value v => readValueWith fuel (text ++ rest) = some (v, rest)
  | slot v => ∃ after, IsBlanks after ∧
    readValueWith fuel (text ++ rest) = some (v, after ++ rest)
  | items list => readItems fuel (text ++ rest) = some (list, rest)
  | members list => readMembers fuel (text ++ rest) = some (list, rest)

variable {fuel : Nat} {rest body later : List Char}

theorem isRead_string {text : Option String} {chars : List Char} (h : SpellsString text chars) :
    (Phrase.value (.string text)).IsRead (fuel + 1) chars rest := by
  obtain ⟨tail, rfl, read⟩ := readString_of_spells h rest
  rw [Phrase.IsRead, List.cons_append, readValueWith, skipBlanks_cons rfl]
  simp only [read, Option.map_some]

theorem isRead_number {n : Number} {text : List Char} (h : SpellsNumber n text)
    (stops : Stops rest) : (Phrase.value (.number n)).IsRead (fuel + 1) text rest := by
  have read := readNumber_of_spells h stops
  obtain ⟨c, later, rfl, first⟩ := head_of_spellsNumber h
  rw [List.cons_append] at read
  rw [Phrase.IsRead, List.cons_append, readValueWith, skipBlanks_cons (isBlank_of_number first)]
  split
  all_goals first
    | rw [read]; rfl
    | rename_i same
      rw [(List.cons.inj same).1] at first
      exact absurd first (by decide)

theorem isRead_emptyArray {blanks : List Char} (blank : IsBlanks blanks) :
    (Phrase.value (.array [])).IsRead (fuel + 1) ('[' :: (blanks ++ [']'])) rest := by
  rw [Phrase.IsRead, List.cons_append, readValueWith, skipBlanks_cons rfl]
  simp only [List.append_assoc, List.singleton_append, skipBlanks_append blank]
  rw [skipBlanks_cons rfl]
  rfl

theorem isRead_emptyObject {blanks : List Char} (blank : IsBlanks blanks) :
    (Phrase.value (.object [])).IsRead (fuel + 1) ('\x7b' :: (blanks ++ ['\x7d'])) rest := by
  rw [Phrase.IsRead, List.cons_append, readValueWith, skipBlanks_cons rfl]
  simp only [List.append_assoc, List.singleton_append, skipBlanks_append blank]
  rw [skipBlanks_cons rfl]
  rfl

theorem isRead_array {items : List Value} (opens : Opens body)
    (read : (Phrase.items items).IsRead fuel body rest) :
    (Phrase.value (.array items)).IsRead (fuel + 1) ('[' :: body) rest := by
  obtain ⟨c, later, skipped, no_bracket, -⟩ := (opens.append rest).skipBlanks_eq
  rw [Phrase.IsRead, ← readItems_skipBlanks, skipped] at read
  rw [Phrase.IsRead, List.cons_append, readValueWith, skipBlanks_cons rfl]
  simp [skipped, no_bracket, read]

theorem isRead_object {members : List (Option String × Value)} (opens : Opens body)
    (read : (Phrase.members members).IsRead fuel body rest) :
    (Phrase.value (.object members)).IsRead (fuel + 1) ('\x7b' :: body) rest := by
  obtain ⟨c, later, skipped, -, no_brace⟩ := (opens.append rest).skipBlanks_eq
  rw [Phrase.IsRead, ← readMembers_skipBlanks, skipped] at read
  rw [Phrase.IsRead, List.cons_append, readValueWith, skipBlanks_cons rfl]
  simp [skipped, no_brace, read]

theorem isRead_slot {value : Value} {before after : List Char} (blank_before : IsBlanks before)
    (blank_after : IsBlanks after)
    (read : (Phrase.value value).IsRead fuel body (after ++ rest)) :
    (Phrase.slot value).IsRead fuel (before ++ (body ++ after)) rest := by
  refine ⟨after, blank_after, ?_⟩
  rw [List.append_assoc, List.append_assoc, ← readValueWith_skipBlanks,
    skipBlanks_append blank_before, readValueWith_skipBlanks]
  exact read

theorem isRead_lastItem {item : Value} (read : (Phrase.slot item).IsRead fuel body (']' :: rest)) :
    (Phrase.items [item]).IsRead (fuel + 1) (body ++ [']']) rest := by
  obtain ⟨after, blank, read⟩ := read
  rw [Phrase.IsRead, List.append_assoc, List.singleton_append, readItems, read]
  simp only [skipBlanks_append blank, skipBlanks_cons (c := ']') rfl]

theorem isRead_nextItem {item : Value} {items : List Value}
    (read : (Phrase.slot item).IsRead fuel body (',' :: (later ++ rest)))
    (others : (Phrase.items items).IsRead fuel later rest) :
    (Phrase.items (item :: items)).IsRead (fuel + 1) (body ++ ',' :: later) rest := by
  obtain ⟨after, blank, read⟩ := read
  rw [Phrase.IsRead] at others
  rw [Phrase.IsRead, List.append_assoc, List.cons_append, readItems, read]
  simp only [skipBlanks_append blank, skipBlanks_cons (c := ',') rfl, others, Option.map_some]

/-- A member is read up to the mark behind its value. -/
theorem readMembers_of_spellsName {fuel : Nat} {name : Option String} {value : Value}
    {front body after rest : List Char} (named : SpellsName name front)
    (read : readValueWith fuel body = some (value, after ++ rest)) (blank : IsBlanks after) :
    (∀ tail, skipBlanks rest = '\x7d' :: tail →
      readMembers (fuel + 1) (front ++ ':' :: body) = some ([(name, value)], tail)) ∧
    ∀ tail members left, skipBlanks rest = ',' :: tail →
      readMembers fuel tail = some (members, left) →
        readMembers (fuel + 1) (front ++ ':' :: body) =
          some ((name, value) :: members, left) := by
  obtain @⟨before, _, after_name, blank_before, quoted, blank_after⟩ := named
  obtain ⟨tail, rfl, read_name⟩ := readString_of_spells quoted (after_name ++ ':' :: body)
  rw [List.append_assoc, List.append_assoc, readMembers, skipBlanks_append blank_before,
    List.cons_append, skipBlanks_cons rfl]
  simp only [read_name, skipBlanks_append blank_after, skipBlanks_cons (c := ':') rfl, read,
    skipBlanks_append blank]
  constructor
  · intro tail close
    simp only [close]
  · intro tail members left comma others
    simp only [comma, others, Option.map_some]

theorem isRead_lastMember {name : Option String} {value : Value} {front : List Char}
    (named : SpellsName name front)
    (read : (Phrase.slot value).IsRead fuel body ('\x7d' :: rest)) :
    (Phrase.members [(name, value)]).IsRead (fuel + 1) (front ++ ':' :: (body ++ ['\x7d']))
      rest := by
  obtain ⟨after, blank, read⟩ := read
  rw [Phrase.IsRead, List.append_assoc, List.cons_append, List.append_assoc,
    List.singleton_append]
  exact (readMembers_of_spellsName named read blank).1 _ (skipBlanks_cons rfl _)

theorem isRead_nextMember {name : Option String} {value : Value} {front : List Char}
    {members : List (Option String × Value)} (named : SpellsName name front)
    (read : (Phrase.slot value).IsRead fuel body (',' :: (later ++ rest)))
    (others : (Phrase.members members).IsRead fuel later rest) :
    (Phrase.members ((name, value) :: members)).IsRead (fuel + 1)
      (front ++ ':' :: (body ++ ',' :: later)) rest := by
  obtain ⟨after, blank, read⟩ := read
  rw [Phrase.IsRead, List.append_assoc, List.cons_append, List.append_assoc, List.cons_append]
  exact (readMembers_of_spellsName named read blank).2 _ _ _ (skipBlanks_cons rfl _) others

/-- A text is read as what it writes. -/
theorem Spells.reads {phrase : Phrase} {text : List Char} (h : Spells phrase text) :
    ∀ (fuel : Nat) (rest : List Char), text.length ≤ fuel → Stops rest →
      phrase.IsRead (fuel + 1) text rest := by
  -- a container takes one of the fuel, and its mark one of the length
  have less (length fuel : Nat) (enough : length + 1 ≤ fuel) :
      ∃ left, fuel = left + 1 ∧ length ≤ left := ⟨fuel - 1, by omega, by omega⟩
  induction h with
  | null | true | false =>
    intro fuel rest _ _
    rw [Phrase.IsRead, readValueWith, List.cons_append, skipBlanks_cons rfl]
    rfl
  | string h => exact fun _ _ _ _ => isRead_string h
  | number h => exact fun _ _ _ stops => isRead_number h stops
  | emptyArray blank => exact fun _ _ _ _ => isRead_emptyArray blank
  | emptyObject blank => exact fun _ _ _ _ => isRead_emptyObject blank
  | @array _ body h ih =>
    intro fuel rest enough stops
    obtain ⟨left, rfl, shorter⟩ := less body.length fuel enough
    exact isRead_array h.opens (ih _ _ shorter stops)
  | @object _ body h ih =>
    intro fuel rest enough stops
    obtain ⟨left, rfl, shorter⟩ := less body.length fuel enough
    exact isRead_object h.opens (ih _ _ shorter stops)
  | slot blank_before h blank_after ih =>
    intro fuel rest enough stops
    simp only [List.length_append] at enough
    exact isRead_slot blank_before blank_after (ih _ _ (by omega) (stops.after blank_after))
  | @lastItem _ body h ih =>
    intro fuel rest enough stops
    rw [List.length_append] at enough
    obtain ⟨left, rfl, shorter⟩ := less body.length fuel enough
    exact isRead_lastItem (ih _ _ shorter (stops_cons _ _ rfl))
  | nextItem h others ih ih' =>
    intro fuel rest enough stops
    rw [List.length_append, List.length_cons, ← Nat.add_assoc] at enough
    obtain ⟨left, rfl, shorter⟩ := less _ fuel enough
    exact isRead_nextItem (ih _ _ (by omega) (stops_cons _ _ rfl)) (ih' _ _ (by omega) stops)
  | lastMember named h ih =>
    intro fuel rest enough stops
    simp only [List.length_append, List.length_cons, ← Nat.add_assoc] at enough
    obtain ⟨left, rfl, shorter⟩ := less _ fuel enough
    exact isRead_lastMember named (ih _ _ (by omega) (stops_cons _ _ rfl))
  | nextMember named h others ih ih' =>
    intro fuel rest enough stops
    simp only [List.length_append, List.length_cons, ← Nat.add_assoc] at enough
    obtain ⟨left, rfl, shorter⟩ := less _ fuel enough
    exact isRead_nextMember named (ih _ _ (by omega) (stops_cons _ _ rfl))
      (ih' _ _ (by omega) stops)

/-- A value is read off the front of a text, up to blanks behind it. -/
theorem readValue_of_spells {value : Value} {text rest : List Char} (h : Spells (.slot value) text)
    (stops : Stops rest) :
    ∃ after, IsBlanks after ∧ readValue (text ++ rest) = some (value, after ++ rest) :=
  h.reads (2 * (text ++ rest).length + 1) rest (by rw [List.length_append]; omega) stops

/-- A document writes a value, with nothing but blanks around it. -/
def Writes (document : String) (value : Value) : Prop := Spells (.slot value) document.toList

end IngestLedger.Json
