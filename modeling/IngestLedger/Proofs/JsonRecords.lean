import IngestLedger.Json.Printer
import IngestLedger.Proofs.JsonReading
import IngestLedger.Proofs.JsonTexts
import Mathlib.Data.List.Nodup

/-!
# Records in documents

A document that writes an object is read as the record of its members. When no known name stands
twice among them, the record is refused exactly when a field refuses its value, and each field has
the value that stands under its name. The written form of a record of plain values is such a
document.

Main statements:

* `Json.exists_readRecord_eq`: what is read of a document that writes an object.
* `Json.Record.verify_of_perm`, `Json.lookup_of_perm`: the checks and the values of the fields.
* `Json.writes_render`: a record as it is written.
-/

namespace IngestLedger.Json

/-! ### Documents that write an object -/

theorem outlineMembers_of_spells {members : List (String × Value)} {fuel : Nat}
    {text rest : List Char} (h : Spells (.members (namedMembers members)) text)
    (stops : Stops rest) (enough : (text ++ rest).length < fuel) :
    outlineMembers fuel (text ++ rest) = (members, .closed rest) := by
  have within : text.length ≤ 2 * (text ++ rest).length + 2 := by
    rw [List.length_append]
    omega
  exact outlineMembers_of_readMembers (h.reads _ rest within stops) (Nat.le_refl _) enough

theorem SpellsName.skipBlanks_append {name : Option String} {front : List Char}
    (named : SpellsName name front) :
    ∃ short, SpellsName name short ∧ ∀ later, skipBlanks (front ++ later) = short ++ later := by
  obtain @⟨before, quoted, after, blank_before, h, blank_after⟩ := named
  refine ⟨quoted ++ after, .between isBlanks_nil h blank_after, fun later => ?_⟩
  obtain ⟨tail, rfl, -⟩ := readString_of_spells h []
  rw [List.append_assoc, Json.skipBlanks_append blank_before]
  exact skipBlanks_cons rfl _

/-- The blanks in front of the first name may be left out. -/
theorem exists_spells_skipBlanks {members : List (Option String × Value)} {text : List Char}
    (h : Spells (.members members) text) (rest : List Char) :
    ∃ body, Spells (.members members) body ∧ skipBlanks (text ++ rest) = body ++ rest := by
  cases h with
  | lastMember named slot =>
    obtain ⟨short, named, same⟩ := named.skipBlanks_append
    refine ⟨_, .lastMember named slot, ?_⟩
    rw [List.append_assoc, same, List.append_assoc]
  | nextMember named slot following =>
    obtain ⟨short, named, same⟩ := named.skipBlanks_append
    refine ⟨_, .nextMember named slot following, ?_⟩
    rw [List.append_assoc, same, List.append_assoc]

/-- The braces of an object and what stands between them. -/
theorem spells_object_cases {members : List (Option String × Value)} {text : List Char}
    (h : Spells (.value (.object members)) text) :
    (members = [] ∧ ∃ blanks, IsBlanks blanks ∧ text = '\x7b' :: (blanks ++ ['\x7d'])) ∨
      ∃ body, Spells (.members members) body ∧ text = '\x7b' :: body := by
  cases h with
  | emptyObject blank => exact .inl ⟨rfl, _, blank, rfl⟩
  | object h => exact .inr ⟨_, h, rfl⟩

theorem spells_slot_cases {value : Value} {text : List Char} (h : Spells (.slot value) text) :
    ∃ before body after, IsBlanks before ∧ Spells (.value value) body ∧ IsBlanks after ∧
      text = before ++ (body ++ after) := by
  cases h with
  | slot blank_before h blank_after => exact ⟨_, _, _, blank_before, h, blank_after, rfl⟩

/-- The outline of a document that writes an object. -/
theorem outline?_of_writes {document : String} {members : List (String × Value)}
    (written : Writes document (.record members)) : ∃ blanks, IsBlanks blanks ∧
      outline? document.toList = some (.members members (.closed blanks)) := by
  obtain ⟨before, body, after, blank_before, h, blank_after, text⟩ := spells_slot_cases written
  refine ⟨after, blank_after, ?_⟩
  rcases spells_object_cases h with ⟨none, blanks, blank, rfl⟩ |
    ⟨inner, inside, rfl⟩
  · obtain rfl := List.map_eq_nil_iff.1 none
    rw [text, outline?, skipBlanks_append blank_before, List.cons_append, skipBlanks_cons rfl]
    simp only [List.append_assoc, List.singleton_append, skipBlanks_append blank]
    rw [skipBlanks_cons rfl]
    rfl
  · obtain ⟨c, later, skipped, -, no_brace⟩ := (inside.opens.append after).skipBlanks_eq
    obtain ⟨short, shortened, same⟩ := exists_spells_skipBlanks inside after
    have stops : Stops (after ++ []) := Stops.after nofun blank_after
    rw [List.append_nil] at stops
    have read : outlineMembers ((short ++ after).length + 1) (short ++ after) =
        (members, .closed after) :=
      outlineMembers_of_spells shortened stops (Nat.lt_succ_self _)
    rw [← same, skipped, List.length_cons] at read
    rw [text, outline?, skipBlanks_append blank_before, List.cons_append, skipBlanks_cons rfl]
    simp only [skipped]
    simp [no_brace, read]

/-- What is read of a document that writes an object. -/
theorem exists_readRecord_eq {document : String} {members : List (String × Value)} {α : Type}
    (written : Writes document (.record members)) (probes : List Probe)
    (build : Record → Except Fault α) :
    ∃ blanks, readRecord probes build document =
      (Record.verify ⟨members, .closed blanks, false⟩ probes >>= fun _ =>
        build ⟨members, .closed blanks, false⟩) := by
  obtain ⟨blanks, blank, outlined⟩ := outline?_of_writes written
  refine ⟨blanks, ?_⟩
  simp only [readRecord, outlined, Outline.record, Record.finish, skipBlanks_of_isBlanks blank]
  refine bind_congr fun _ => ?_
  cases build ⟨members, .closed blanks, false⟩ <;> rfl

/-! ### The checks of a record -/

/-- The members under one of some names, in their order. -/
def membersUnder (names : List String) (members : List (String × Value)) : List (String × Value) :=
  members.filter fun member => names.contains member.1

theorem isSome_find?_name (probes : List Probe) (name : String) :
    (probes.find? (·.name = name)).isSome = (probes.map Probe.name).contains name := by
  induction probes with
  | nil => rfl
  | cons probe probes ih =>
    by_cases same : probe.name = name
    · simp [same]
    · have differ : name ≠ probe.name := Ne.symm same
      simpa [same, differ] using ih

/-- What a record with the given fields finds wrong with a member. -/
def memberFault? (probes : List Probe) (member : String × Value) : Option Fault :=
  match probes.find? (·.name = member.1) with
  | none => none
  | some probe =>
    match probe.check member.2 with
    | .error fault => some fault
    | .ok () => none

/-- A value that its field can read has no fault. -/
theorem memberFault?_of_read {α : Type} (field : Field α) {probes : List Probe} {value : Value}
    {a : α} (known : probes.find? (·.name = field.name) = some field.probe)
    (good : field.read value = .ok a) : memberFault? probes (field.name, value) = none := by
  simp only [memberFault?, known, Field.probe, good]

/-- When no known name stands twice, the first member with a fault decides. -/
theorem Record.verifyFrom_eq {probes : List Probe} {rest : List Char} {seen : List String}
    {members : List (String × Value)}
    (distinct : ((membersUnder (probes.map Probe.name) members).map Prod.fst).Nodup)
    (fresh : ∀ m ∈ membersUnder (probes.map Probe.name) members, m.1 ∉ seen) :
    verifyFrom probes (.closed rest) seen members =
      match members.findSome? (memberFault? probes) with
      | none => .ok ()
      | some fault => .error fault := by
  induction members generalizing seen with
  | nil => rfl
  | cons member members ih =>
    obtain ⟨name, value⟩ := member
    rw [membersUnder, List.filter_cons, ← isSome_find?_name] at distinct fresh
    cases known : probes.find? (·.name = name) with
    | none =>
      simp only [known, Option.isSome_none, Bool.false_eq_true, if_false] at distinct fresh
      simp only [verifyFrom, known, ih distinct fresh, List.findSome?_cons, memberFault?]
    | some probe =>
      simp only [known, Option.isSome_some, if_true, List.map_cons] at distinct fresh
      obtain ⟨once, distinct⟩ := List.nodup_cons.1 distinct
      have unseen : seen.contains name = false := by
        simpa using fresh (name, value) (.head _)
      have fresh_later : ∀ m ∈ membersUnder (probes.map Probe.name) members,
          m.1 ∉ name :: seen := by
        intro m inside again
        rcases List.mem_cons.1 again with same | again
        · exact once (same ▸ List.mem_map_of_mem inside)
        · exact fresh m (.tail _ inside) again
      cases check : probe.check value with
      | error fault =>
        simp only [verifyFrom, known, unseen, check, List.findSome?_cons, memberFault?,
          Bool.false_eq_true, if_false]
      | ok _ =>
        simp only [verifyFrom, known, unseen, check, ih distinct fresh_later,
          List.findSome?_cons, memberFault?, Bool.false_eq_true, if_false]

/-- When the known members are some fields with different names, a name finds its field. -/
theorem lookup_of_perm {names : List String} {members fields : List (String × Value)}
    (given : (membersUnder names members).Perm fields) (distinct : (fields.map Prod.fst).Nodup)
    {name : String} {value : Value} (inside : (name, value) ∈ fields) :
    members.lookup name = some value := by
  obtain ⟨there, kept⟩ := List.mem_filter.1 (given.mem_iff.2 inside)
  cases found : members.lookup name with
  | none =>
    have absent := List.lookup_eq_none_iff.1 found _ there
    exact absurd absent (by simp)
  | some other =>
    obtain ⟨before, later, rfl, -⟩ := List.lookup_eq_some_iff.1 found
    have also : (name, other) ∈ fields :=
      given.mem_iff.1 (List.mem_filter.2 ⟨by simp, kept⟩)
    have same := List.inj_on_of_nodup_map distinct also inside rfl
    rw [(Prod.mk.inj same).2]

/-- A record whose known members are some fields with different names is refused exactly when one
of these has a fault. -/
theorem Record.verify_of_perm (probes : List Probe) (rest : List Char) (positional : Bool)
    {members fields : List (String × Value)}
    (given : (membersUnder (probes.map Probe.name) members).Perm fields)
    (distinct : (fields.map Prod.fst).Nodup) :
    (verify ⟨members, .closed rest, positional⟩ probes = .ok () ∧
      ∀ field ∈ fields, memberFault? probes field = none) ∨
    ∃ field ∈ fields, ∃ fault, memberFault? probes field = some fault ∧
      verify ⟨members, .closed rest, positional⟩ probes = .error fault := by
  have names := (given.map Prod.fst).nodup_iff.2 distinct
  have verified : verifyFrom probes (.closed rest) [] members = _ :=
    verifyFrom_eq names fun _ _ => List.not_mem_nil
  rw [verify]
  cases first : members.findSome? (memberFault? probes) with
  | none =>
    rw [first] at verified
    refine .inl ⟨verified, fun field inside => ?_⟩
    exact List.findSome?_eq_none_iff.1 first field
      (List.mem_of_mem_filter (given.mem_iff.2 inside))
  | some fault =>
    rw [first] at verified
    obtain ⟨member, there, faulty⟩ := List.exists_of_findSome?_eq_some first
    refine .inr ⟨member, given.mem_iff.1 (List.mem_filter.2 ⟨there, ?_⟩), fault, faulty, verified⟩
    rw [← isSome_find?_name]
    cases known : probes.find? (·.name = member.1) with
    | none => simp [memberFault?, known] at faulty
    | some probe => rfl

/-! ### Records as they are written -/

/-- A value that is neither an array nor an object, and no number but a plain one. -/
inductive Value.IsPlain : Value → Prop
  | null : IsPlain .null
  | bool (value : Bool) : IsPlain (.bool value)
  | word (n : UInt64) : IsPlain (.word n)
  | text (words : String) : IsPlain (.text words)

/-- A plain value can be kept wherever it stands. -/
theorem Value.IsPlain.isStorable {value : Value} (plain : value.IsPlain) {depth : Nat} :
    value.isStorable depth = true := by
  cases plain <;> cases depth <;> rfl

theorem joinPieces_unit {n : Nat} (high : isHighSurrogate n = false)
    (low : isLowSurrogate n = false) (pieces : List Piece) :
    joinPieces (.unit n :: pieces) = (joinPieces pieces).map (Char.ofNat n :: ·) := by
  rcases pieces with _ | ⟨c | m, pieces⟩ <;> simp [joinPieces, high, low]

/-- A character as it is written in a string is read as that character. -/
theorem exists_piece_escape (c : Char) : ∃ piece : Piece, piece.Spells (escape c) ∧
    ∀ pieces, joinPieces (piece :: pieces) = (joinPieces pieces).map (c :: ·) := by
  have char : ∀ pieces, joinPieces (.char c :: pieces) = (joinPieces pieces).map (c :: ·) :=
    fun _ => rfl
  unfold escape
  split_ifs with quote backslash backspace feed line_feed return_mark tab control
  · exact ⟨.char c, .short (by rw [quote]; rfl), char⟩
  · exact ⟨.char c, .short (by rw [backslash]; rfl), char⟩
  · exact ⟨.char c, .short (by rw [backspace]; rfl), char⟩
  · exact ⟨.char c, .short (by rw [feed]; rfl), char⟩
  · exact ⟨.char c, .short (by rw [line_feed]; rfl), char⟩
  · exact ⟨.char c, .short (by rw [return_mark]; rfl), char⟩
  · exact ⟨.char c, .short (by rw [tab]; rfl), char⟩
  · have digits : ∀ n < 0x20,
        unit? '0' '0' (hexDigit (n / 16)) (hexDigit (n % 16)) = some n := by decide
    have units : ∀ n < 0x20, isHighSurrogate n = false ∧ isLowSurrogate n = false := by decide
    refine ⟨.unit c.toNat, .unit (digits _ control), fun pieces => ?_⟩
    rw [joinPieces_unit (units _ control).1 (units _ control).2, Char.ofNat_toNat]
  · exact ⟨.char c, .itself control quote backslash, char⟩

theorem exists_pieces_escape (chars : List Char) : ∃ pieces,
    SpellsPieces pieces (chars.flatMap escape) ∧ joinPieces pieces = some chars := by
  induction chars with
  | nil => exact ⟨[], .nil, rfl⟩
  | cons c chars ih =>
    obtain ⟨pieces, written, joined⟩ := ih
    obtain ⟨piece, first, join⟩ := exists_piece_escape c
    exact ⟨piece :: pieces, .cons first written, by rw [join, joined, Option.map_some]⟩

theorem spellsString_render (words : String) :
    SpellsString (some words) (renderString words) := by
  obtain ⟨pieces, written, joined⟩ := exists_pieces_escape words.toList
  have quoted := SpellsString.quoted written
  rwa [joined, Option.map_some, String.ofList_toList] at quoted

/-- The digits of a number do not begin with a zero, unless it is zero. -/
theorem head_toDigits {n : Nat} (positive : 0 < n) :
    ∀ c ∈ (Nat.toDigits 10 n).head?, c ≠ '0' := by
  induction n using Nat.strongRecOn with
  | ind n ih =>
    by_cases single : n < 10
    · rw [Nat.toDigits_of_lt_base single]
      have digits : ∀ d < 10, 0 < d → d.digitChar ≠ '0' := by decide
      rintro c ⟨⟩
      exact digits n single positive
    · rw [Nat.toDigits_of_base_le (by decide) (Nat.not_lt.1 single),
        List.head?_append_of_ne_nil _ Nat.toDigits_ne_nil]
      exact ih (n / 10) (by omega) (by omega)

theorem isWhole_toDigits (n : Nat) : IsWhole (Nat.toDigits 10 n) where
  decimal := ⟨Nat.toDigits_ne_nil, fun _ => Nat.isDigit_of_mem_toDigits (by decide) (by decide)⟩
  no_zero := by
    intro c later same
    rcases Nat.eq_zero_or_pos n with rfl | positive
    · cases same
    · exact head_toDigits positive '0' (by rw [same]; rfl) rfl

theorem spellsNumber_render (n : UInt64) : SpellsNumber (.natural n) (renderNat n.toNat) := by
  have written := SpellsNumber.positive (isWhole_toDigits n.toNat) .absent .absent
  rwa [numberOf, if_pos (by rfl), Number.ofPlainDigits_toDigits n, List.append_nil, List.append_nil]
    at written

theorem spells_render {value : Value} (plain : value.IsPlain) :
    Spells (.value value) value.render := by
  cases plain with
  | null => exact .null
  | bool value => cases value with
    | true => exact .true
    | false => exact .false
  | word n => exact .number (spellsNumber_render n)
  | text words => exact .string (spellsString_render words)

theorem spellsName_render (name : String) :
    SpellsName (some name) (renderString name) := by
  have between := SpellsName.between isBlanks_nil (spellsString_render name) isBlanks_nil
  rwa [List.nil_append, List.append_nil] at between

/-- No blanks need to stand around a value. -/
theorem Spells.slot_of_value {value : Value} {text : List Char} (h : Spells (.value value) text) :
    Spells (.slot value) text := by
  have slot := Spells.slot isBlanks_nil h isBlanks_nil
  rwa [List.nil_append, List.append_nil] at slot

theorem spells_renderMembers {member : String × Value} {members : List (String × Value)}
    (plain : ∀ m ∈ member :: members, m.2.IsPlain) :
    Spells (.members (namedMembers (member :: members)))
      (Value.renderMembers (namedMembers (member :: members))) := by
  induction members generalizing member with
  | nil =>
    have value := spells_render (plain member (.head _))
    exact .lastMember (spellsName_render member.1) value.slot_of_value
  | cons next members ih =>
    have value := spells_render (plain member (.head _))
    exact .nextMember (spellsName_render member.1) value.slot_of_value
      (ih fun m inside => plain m (.tail _ inside))

/-- The written form of a record of plain values writes it. -/
theorem writes_render {fields : List (String × Value)} (plain : ∀ f ∈ fields, f.2.IsPlain) :
    Writes (String.ofList (Value.record fields).render) (.record fields) := by
  rw [Writes, String.toList_ofList]
  cases fields with
  | nil => exact (Spells.emptyObject isBlanks_nil).slot_of_value
  | cons field fields => exact (Spells.object (spells_renderMembers plain)).slot_of_value

end IngestLedger.Json
