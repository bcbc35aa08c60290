import IngestLedger.Json.Record
import Mathlib.Data.List.TakeDrop

/-!
# What readers of JSON take

A reader takes characters off the front of a text and leaves the rest as it is. So the length of the
text bounds the parts that are read, and the reader of values never comes to the end of its fuel: it
is the same with any more of it.

Main statements:

* `Json.suffix_of_readValueWith`: what is left of a text behind a value.
* `Json.readValueWith_of_le`: the fuel for values is enough.
* `Json.outlineMembers_of_readMembers`: members that are read up to the closing brace are the
  outline of a record.
-/

namespace IngestLedger.Json

variable {chars rest : List Char}

/-! ### What is left -/

theorem suffix_of_skipBlanks {c : Char} (h : skipBlanks chars = c :: rest) : rest <:+ chars :=
  (List.suffix_cons c rest).trans (h ▸ List.dropWhile_suffix isBlank)

theorem length_skipBlanks_le (chars : List Char) : (skipBlanks chars).length ≤ chars.length :=
  (List.dropWhile_suffix isBlank).length_le

/-- Behind a visible character there is less of a text. -/
theorem length_lt_of_skipBlanks {c : Char} (h : skipBlanks chars = c :: rest) :
    rest.length < chars.length :=
  (h ▸ List.dropWhile_suffix isBlank : c :: rest <:+ chars).length_le

theorem suffix_of_readPieces {pieces : List Piece} (read : readPieces chars = some (pieces, rest)) :
    rest <:+ chars := by
  fun_induction readPieces chars generalizing pieces rest with
  | case1 => cases read
  | case2 =>
    cases read
    exact List.suffix_cons _ _
  | case3 a b c d later _ _ _ here _ ih =>
    cases read
    exact (ih here).trans (List.suffix_append ['\\', 'u', a, b, c, d] later)
  | case4 => cases read
  | case5 e later _ _ _ _ here _ ih =>
    cases read
    exact (ih here).trans (List.suffix_append ['\\', e] later)
  | case6 => cases read
  | case7 => cases read
  | case8 c later _ _ _ _ _ _ here ih =>
    cases read
    exact (ih here).trans (List.suffix_cons c later)
  | case9 => cases read

theorem suffix_of_readString {text : Option String} (read : readString chars = some (text, rest)) :
    rest <:+ chars := by
  unfold readString at read
  split at read
  · rename_i pieces
    cases read
    exact suffix_of_readPieces pieces
  · cases read

theorem suffix_of_readDigits {digits : List Char} (read : readDigits chars = (digits, rest)) :
    rest <:+ chars := by
  rw [readDigits, List.span_eq_takeWhile_dropWhile] at read
  exact (Prod.mk.inj read).2 ▸ List.dropWhile_suffix Char.isDigit

theorem suffix_of_readFraction {fraction : List Char}
    (read : readFraction chars = some (fraction, rest)) : rest <:+ chars := by
  unfold readFraction at read
  split at read
  · split at read
    · cases read
    · exact (suffix_of_readDigits (Option.some.inj read)).trans (List.suffix_cons _ _)
  · cases read
    exact List.suffix_rfl

theorem suffix_of_readExponent {exponent : Option Int}
    (read : readExponent chars = some (exponent, rest)) : rest <:+ chars := by
  unfold readExponent at read
  split at read
  · rename_i mark behind
    split at read
    · split at read
      rename_i negative digits signed
      have unsigned : digits <:+ behind := by
        split at signed <;> obtain ⟨-, rfl⟩ := Prod.mk.inj signed
        · exact List.suffix_cons _ _
        · exact List.suffix_cons _ _
        · exact List.suffix_rfl
      split at read
      · cases read
      · rename_i taken
        cases read
        exact ((suffix_of_readDigits taken).trans unsigned).trans (List.suffix_cons _ _)
    · cases read
      exact List.suffix_rfl
  · cases read
    exact List.suffix_rfl

theorem suffix_of_readUnsigned {negative : Bool} {n : Number}
    (read : readUnsigned negative chars = some (n, rest)) : rest <:+ chars := by
  unfold readUnsigned at read
  split at read
  · cases read
  · cases read
  · rename_i whole
    split at read
    · cases read
    · rename_i fraction
      split at read
      · cases read
      · rename_i exponent
        have left := ((suffix_of_readExponent exponent).trans
          (suffix_of_readFraction fraction)).trans (suffix_of_readDigits whole)
        split at read <;> cases read <;> exact left

theorem suffix_of_readNumber {n : Number} (read : readNumber chars = some (n, rest)) :
    rest <:+ chars := by
  unfold readNumber at read
  split at read
  · exact (suffix_of_readUnsigned read).trans (List.suffix_cons _ _)
  · exact suffix_of_readUnsigned read

/-- What a reader leaves is the end of what it was given. -/
def LeavesEnd {α : Type} (read : List Char → Option (α × List Char)) : Prop :=
  ∀ ⦃chars a rest⦄, read chars = some (a, rest) → rest <:+ chars

section Parts

variable {fuel : Nat}

theorem leavesEnd_readValueWith_succ (items_left : LeavesEnd (readItems fuel))
    (members_left : LeavesEnd (readMembers fuel)) : LeavesEnd (readValueWith (fuel + 1)) := by
  intro chars value rest read
  rw [readValueWith] at read
  split at read
  case h_1 word =>
    cases read
    exact (List.suffix_append ['u', 'l', 'l'] rest).trans (suffix_of_skipBlanks word)
  case h_2 word =>
    cases read
    exact (List.suffix_append ['r', 'u', 'e'] rest).trans (suffix_of_skipBlanks word)
  case h_3 word =>
    cases read
    exact (List.suffix_append ['a', 'l', 's', 'e'] rest).trans (suffix_of_skipBlanks word)
  case h_4 opened =>
    obtain ⟨⟨text, left⟩, quoted, same⟩ := Option.map_eq_some_iff.1 read
    cases same
    exact (suffix_of_readString quoted).trans (suffix_of_skipBlanks opened)
  case h_5 opened =>
    split at read
    · rename_i close
      cases read
      exact (suffix_of_skipBlanks close).trans (suffix_of_skipBlanks opened)
    · obtain ⟨⟨items, left⟩, inside, same⟩ := Option.map_eq_some_iff.1 read
      cases same
      exact ((items_left inside).trans (List.dropWhile_suffix isBlank)).trans
        (suffix_of_skipBlanks opened)
  case h_6 opened =>
    split at read
    · rename_i close
      cases read
      exact (suffix_of_skipBlanks close).trans (suffix_of_skipBlanks opened)
    · obtain ⟨⟨members, left⟩, inside, same⟩ := Option.map_eq_some_iff.1 read
      cases same
      exact ((members_left inside).trans (List.dropWhile_suffix isBlank)).trans
        (suffix_of_skipBlanks opened)
  case h_7 =>
    obtain ⟨⟨n, left⟩, number, same⟩ := Option.map_eq_some_iff.1 read
    cases same
    exact (suffix_of_readNumber number).trans (List.dropWhile_suffix isBlank)

theorem leavesEnd_readItems_succ (value_left : LeavesEnd (readValueWith fuel))
    (items_left : LeavesEnd (readItems fuel)) : LeavesEnd (readItems (fuel + 1)) := by
  intro chars items rest read
  rw [readItems] at read
  split at read
  · cases read
  · rename_i item
    split at read
    · rename_i close
      cases read
      exact (suffix_of_skipBlanks close).trans (value_left item)
    · rename_i comma
      obtain ⟨⟨others, left⟩, later, same⟩ := Option.map_eq_some_iff.1 read
      cases same
      exact ((items_left later).trans (suffix_of_skipBlanks comma)).trans (value_left item)
    · cases read

theorem leavesEnd_readMembers_succ (value_left : LeavesEnd (readValueWith fuel))
    (members_left : LeavesEnd (readMembers fuel)) : LeavesEnd (readMembers (fuel + 1)) := by
  intro chars members rest read
  rw [readMembers] at read
  split at read
  · rename_i opened
    split at read
    · cases read
    · rename_i name
      split at read
      · rename_i colon
        have body := ((suffix_of_skipBlanks colon).trans (suffix_of_readString name)).trans
          (suffix_of_skipBlanks opened)
        split at read
        · cases read
        · rename_i value
          have behind := (value_left value).trans body
          split at read
          · rename_i close
            cases read
            exact (suffix_of_skipBlanks close).trans behind
          · rename_i comma
            obtain ⟨⟨others, left⟩, later, same⟩ := Option.map_eq_some_iff.1 read
            cases same
            exact ((members_left later).trans (suffix_of_skipBlanks comma)).trans behind
          · cases read
      · cases read
  · cases read

end Parts

theorem leavesEnd (fuel : Nat) : LeavesEnd (readValueWith fuel) ∧ LeavesEnd (readItems fuel) ∧
    LeavesEnd (readMembers fuel) := by
  induction fuel with
  | zero => exact ⟨nofun, nofun, nofun⟩
  | succ fuel ih =>
    obtain ⟨value_left, items_left, members_left⟩ := ih
    exact ⟨leavesEnd_readValueWith_succ items_left members_left,
      leavesEnd_readItems_succ value_left items_left,
      leavesEnd_readMembers_succ value_left members_left⟩

theorem suffix_of_readValueWith {fuel : Nat} {value : Value}
    (read : readValueWith fuel chars = some (value, rest)) : rest <:+ chars :=
  (leavesEnd fuel).1 read

/-! ### Fuel -/

/-- More fuel makes no difference to a reader that has enough: two parts for each character of its
text, and some more. -/
def HasEnough {α : Type} (read : Nat → List Char → Option α) (more fuel : Nat) : Prop :=
  ∀ chars : List Char, 2 * chars.length + more ≤ fuel → read (fuel + 1) chars = read fuel chars

section Parts

variable {fuel : Nat}

theorem hasEnough_readValueWith_succ (items : HasEnough readItems 3 fuel)
    (members : HasEnough readMembers 3 fuel) : HasEnough readValueWith 2 (fuel + 1) := by
  intro chars enough
  rw [readValueWith, readValueWith]
  split
  case h_5 inside opened =>
    have taken := length_lt_of_skipBlanks opened
    have visible := length_skipBlanks_le inside
    split
    · rfl
    · rw [items _ (by omega)]
  case h_6 inside opened =>
    have taken := length_lt_of_skipBlanks opened
    have visible := length_skipBlanks_le inside
    split
    · rfl
    · rw [members _ (by omega)]
  all_goals rfl

theorem hasEnough_readItems_succ (values : HasEnough readValueWith 2 fuel)
    (items : HasEnough readItems 3 fuel) : HasEnough readItems 3 (fuel + 1) := by
  intro chars enough
  rw [readItems, readItems, values chars (by omega)]
  split
  · rfl
  · rename_i item
    have behind := (suffix_of_readValueWith item).length_le
    split
    · rfl
    · rename_i comma
      have taken := length_lt_of_skipBlanks comma
      rw [items _ (by omega)]
    · rfl

theorem hasEnough_readMembers_succ (values : HasEnough readValueWith 2 fuel)
    (members : HasEnough readMembers 3 fuel) : HasEnough readMembers 3 (fuel + 1) := by
  intro chars enough
  rw [readMembers, readMembers]
  split
  · rename_i opened
    have quoted := length_lt_of_skipBlanks opened
    split
    · rfl
    · rename_i name
      have named := (suffix_of_readString name).length_le
      split
      · rename_i colon
        have body := length_lt_of_skipBlanks colon
        rw [values _ (by omega)]
        split
        · rfl
        · rename_i value
          have behind := (suffix_of_readValueWith value).length_le
          split
          · rfl
          · rename_i comma
            have taken := length_lt_of_skipBlanks comma
            rw [members _ (by omega)]
          · rfl
      · rfl
  · rfl

end Parts

theorem hasEnough (fuel : Nat) : HasEnough readValueWith 2 fuel ∧ HasEnough readItems 3 fuel ∧
    HasEnough readMembers 3 fuel := by
  -- a container takes a character and a part, and so does each step along it
  induction fuel with
  | zero => exact ⟨fun _ => nofun, fun _ => nofun, fun _ => nofun⟩
  | succ fuel ih =>
    obtain ⟨values, items, members⟩ := ih
    exact ⟨hasEnough_readValueWith_succ items members, hasEnough_readItems_succ values items,
      hasEnough_readMembers_succ values members⟩

/-- A value is read as it is with any more fuel, so the fuel is no bound to what is read. -/
theorem readValueWith_of_le {fuel : Nat} (enough : 2 * chars.length + 2 ≤ fuel) :
    readValueWith fuel chars = readValue chars := by
  induction enough with
  | refl => rfl
  | step enough ih => rw [(hasEnough _).1 chars enough, ih]

/-! ### Outlines -/

/-- The members of an object that all have names. -/
def namedMembers (members : List (String × Value)) : List (Option String × Value) :=
  members.map fun (name, value) => (some name, value)

theorem exists_of_namedMembers_eq_cons {members : List (String × Value)} {name : Option String}
    {value : Value} {others : List (Option String × Value)}
    (h : namedMembers members = (name, value) :: others) : ∃ text later,
      members = (text, value) :: later ∧ name = some text ∧ namedMembers later = others := by
  obtain ⟨⟨text, value⟩, later, rfl, same, following⟩ := List.map_eq_cons_iff.1 h
  obtain ⟨rfl, rfl⟩ := Prod.mk.inj same
  exact ⟨text, later, rfl, rfl, following⟩

/-- Members that are read up to the closing brace are the outline of a record, if all of them have
names. -/
theorem outlineMembers_of_readMembers {fuel bound : Nat} {members : List (String × Value)}
    (read : readMembers fuel chars = some (namedMembers members, rest))
    (enough : 2 * chars.length + 3 ≤ fuel) (long : chars.length < bound) :
    outlineMembers bound chars = (members, .closed rest) := by
  obtain ⟨bound, rfl⟩ := Nat.exists_eq_add_one_of_ne_zero (Nat.ne_zero_of_lt long)
  induction fuel generalizing bound chars members with
  | zero => cases read
  | succ fuel ih =>
    rw [readMembers] at read
    split at read
    · rename_i quoted opened
      have inside := length_lt_of_skipBlanks opened
      split at read
      · cases read
      · rename_i name unquoted found
        have named := (suffix_of_readString found).length_le
        split at read
        · rename_i body colon
          have further := length_lt_of_skipBlanks colon
          rw [readValueWith_of_le (by omega)] at read
          split at read
          · cases read
          · rename_i value behind item
            split at read
            · rename_i after close
              obtain ⟨listed, rfl⟩ := Prod.mk.inj (Option.some.inj read)
              obtain ⟨text, later, rfl, rfl, none⟩ := exists_of_namedMembers_eq_cons listed.symm
              obtain rfl := List.map_eq_nil_iff.1 none
              rw [outlineMembers]
              simp only [opened, found, colon, item, close]
            · rename_i after comma
              have taken := length_lt_of_skipBlanks comma
              have behind := (suffix_of_readValueWith item).length_le
              obtain ⟨⟨others, left⟩, following, same⟩ := Option.map_eq_some_iff.1 read
              obtain ⟨listed, rfl⟩ := Prod.mk.inj same
              obtain ⟨text, later, rfl, rfl, rfl⟩ := exists_of_namedMembers_eq_cons listed.symm
              obtain ⟨bound, rfl⟩ := Nat.exists_eq_add_one_of_ne_zero (by omega : bound ≠ 0)
              rw [outlineMembers]
              simp only [opened, found, colon, item, comma,
                ih following (by omega) bound (by omega)]
            · cases read
        · cases read
    · cases read

end IngestLedger.Json
