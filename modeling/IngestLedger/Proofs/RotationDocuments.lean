import IngestLedger.Proofs.HexLiterals
import IngestLedger.Proofs.JsonRecords
import IngestLedger.Proofs.Rotations

/-!
# Documents of rotations

A document gives a rotation when it writes an object with the five fields, in any order and among
others, in which the bytes stand as literals of any mixture of cases. Such a document is accepted,
with the very rotation, exactly when the public key is built up as its scheme says.

Main definitions:

* `RotationTexts.IsGivenBy`: the documents with some fields.
* `KeyRotation.IsWellFormed`: the rotations that are accepted.

Main statements:

* `KeyRotation.read_of_isGivenBy`: what is read of the fields.
* `KeyRotation.check_cases`: the check of the public key.
* `KeyRotation.ofDocument_exact`: which documents are accepted, and with which rotation.
-/

namespace IngestLedger

/-- The number of a scheme. -/
def KeyScheme.number : KeyScheme → UInt64
  | ed25519 => 0
  | multiEd25519 => 1
  | singleKey => 2
  | multiKey => 3

/-- What stands in the fields of a document: four texts and a scheme. -/
structure RotationTexts where
  newAuthKey : String
  oldAuthKey : String
  publicKey : String
  scheme : KeyScheme
  verified : String

namespace RotationTexts

variable {texts : RotationTexts} {document : String} {rotation : KeyRotation}

/-- The names of the fields. -/
def names : List String :=
  ["new_auth_key", "old_auth_key", "public_key", "public_key_scheme",
    "verified_public_key_bit_map"]

/-- The fields of a document. -/
def fields (texts : RotationTexts) : List (String × Json.Value) :=
  [("new_auth_key", .text texts.newAuthKey), ("old_auth_key", .text texts.oldAuthKey),
    ("public_key", .text texts.publicKey), ("public_key_scheme", .word texts.scheme.number),
    ("verified_public_key_bit_map", .text texts.verified)]

/-- A document that writes an object with these fields, each of them once, in any order and among
any others. -/
def IsGivenBy (texts : RotationTexts) (document : String) : Prop :=
  ∃ members, Json.Writes document (.record members) ∧
    (Json.membersUnder names members).Perm texts.fields

/-- The texts that should be literals. -/
def literals (texts : RotationTexts) : List String :=
  [texts.newAuthKey, texts.oldAuthKey, texts.publicKey, texts.verified]

/-- The texts are literals of the bytes of a rotation, and the scheme is that of the rotation. -/
structure Denotes (texts : RotationTexts) (rotation : KeyRotation) : Prop where
  newAuthKey : Hex.IsLiteralOf texts.newAuthKey rotation.newAuthKey
  oldAuthKey : Hex.IsLiteralOf texts.oldAuthKey rotation.oldAuthKey
  publicKey : Hex.IsLiteralOf texts.publicKey rotation.publicKey
  scheme : texts.scheme = rotation.scheme
  verified : Hex.IsLiteralOf texts.verified rotation.verified

theorem Denotes.unique {other : KeyRotation} (h : texts.Denotes rotation)
    (h' : texts.Denotes other) : rotation = other := by
  obtain ⟨new, old, key, scheme, bitmap⟩ := h
  obtain ⟨new', old', key', scheme', bitmap'⟩ := h'
  cases rotation
  cases other
  simp only [KeyRotation.mk.injEq]
  exact ⟨new.unique new', old.unique old', key.unique key', scheme.symm.trans scheme',
    bitmap.unique bitmap'⟩

theorem Denotes.exists_of_mem (h : texts.Denotes rotation) {text : String}
    (listed : text ∈ texts.literals) : ∃ bytes, Hex.IsLiteralOf text bytes := by
  simp only [literals, List.mem_cons, List.not_mem_nil, or_false] at listed
  obtain rfl | rfl | rfl | rfl := listed
  · exact ⟨_, h.newAuthKey⟩
  · exact ⟨_, h.oldAuthKey⟩
  · exact ⟨_, h.publicKey⟩
  · exact ⟨_, h.verified⟩

end RotationTexts

/-- The texts of a rotation in lower case. -/
def KeyRotation.texts (rotation : KeyRotation) : RotationTexts where
  newAuthKey := Hex.literal rotation.newAuthKey
  oldAuthKey := Hex.literal rotation.oldAuthKey
  publicKey := Hex.literal rotation.publicKey
  scheme := rotation.scheme
  verified := Hex.literal rotation.verified

/-- A document of a rotation. -/
def KeyRotation.document (rotation : KeyRotation) : String :=
  String.ofList (Json.Value.record rotation.texts.fields).render

namespace KeyRotation

open RotationTexts Json

section

variable {texts : RotationTexts} {document : String} {rotation : KeyRotation}

/-! ### Reading the fields -/

/-- The fields that a document is read with. -/
def probes : List Probe :=
  [newAuthKeyField.probe, oldAuthKeyField.probe, publicKeyField.probe, schemeField.probe,
    verifiedField.probe]

theorem read_schemeField (scheme : KeyScheme) :
    schemeField.read (.word scheme.number) = .ok scheme := by
  cases scheme <;> rfl

theorem read_bytesField (name text : String) : (bytesField name).read (.text text) =
    match Hex.ofLiteral text with
    | .ok bytes => .ok bytes
    | .error fault => .error (.refused fault.message) := rfl

/-- A field of bytes has a fault exactly when its text is no literal. -/
theorem memberFault?_text {name text : String}
    (known : probes.find? (·.name = name) = some (bytesField name).probe) :
    memberFault? probes (name, .text text) =
      match Hex.ofLiteral text with
      | .ok _ => none
      | .error wrong => some (.refused wrong.message) := by
  simp only [memberFault?, known, Field.probe, read_bytesField]
  cases Hex.ofLiteral text <;> rfl

theorem exists_isLiteralOf {name text : String}
    (known : probes.find? (·.name = name) = some (bytesField name).probe)
    (good : memberFault? probes (name, .text text) = none) :
    ∃ bytes, Hex.IsLiteralOf text bytes := by
  rw [memberFault?_text known] at good
  cases read : Hex.ofLiteral text with
  | ok bytes => exact ⟨bytes, Hex.ofLiteral_eq_ok_iff.1 read⟩
  | error wrong =>
    rw [read] at good
    cases good

theorem exists_ofLiteral_error {name text : String} {fault : Fault}
    (known : probes.find? (·.name = name) = some (bytesField name).probe)
    (faulty : memberFault? probes (name, .text text) = some fault) :
    ∃ wrong, Hex.ofLiteral text = .error wrong ∧ fault = .refused wrong.message := by
  rw [memberFault?_text known] at faulty
  cases read : Hex.ofLiteral text with
  | ok bytes =>
    rw [read] at faulty
    cases faulty
  | error wrong =>
    rw [read] at faulty
    exact ⟨wrong, rfl, (Option.some.inj faulty).symm⟩

/-- Fields without a fault denote a rotation. -/
theorem exists_denotes (good : ∀ field ∈ texts.fields, memberFault? probes field = none) :
    ∃ rotation, texts.Denotes rotation := by
  obtain ⟨newAuthKey, new⟩ := exists_isLiteralOf (by rfl) (good _ (.head _))
  obtain ⟨oldAuthKey, old⟩ := exists_isLiteralOf (by rfl) (good _ (.tail _ (.head _)))
  obtain ⟨publicKey, key⟩ := exists_isLiteralOf (by rfl) (good _ (.tail _ (.tail _ (.head _))))
  obtain ⟨verified, bitmap⟩ := exists_isLiteralOf (by rfl)
    (good _ (.tail _ (.tail _ (.tail _ (.tail _ (.head _))))))
  exact ⟨⟨newAuthKey, oldAuthKey, publicKey, texts.scheme, verified⟩, new, old, key, rfl, bitmap⟩

/-- A fault of a field is that of a text that is no literal. -/
theorem exists_of_memberFault? {field : String × Value} (inside : field ∈ texts.fields)
    {fault : Fault} (faulty : memberFault? probes field = some fault) :
    ∃ text ∈ texts.literals, ∃ wrong, Hex.ofLiteral text = .error wrong ∧
      fault = .refused wrong.message := by
  simp only [fields, List.mem_cons, List.not_mem_nil, or_false] at inside
  obtain rfl | rfl | rfl | rfl | rfl := inside
  · exact ⟨_, by simp [literals], exists_ofLiteral_error rfl faulty⟩
  · exact ⟨_, by simp [literals], exists_ofLiteral_error rfl faulty⟩
  · exact ⟨_, by simp [literals], exists_ofLiteral_error rfl faulty⟩
  · have known : probes.find? (·.name = "public_key_scheme") = some schemeField.probe := rfl
    simp only [memberFault?, known, Field.probe, read_schemeField] at faulty
    cases faulty
  · exact ⟨_, by simp [literals], exists_ofLiteral_error rfl faulty⟩

/-- The rotation of a record. -/
def ofRecord (record : Record) : Except Fault KeyRotation := do
  let newAuthKey ← record.get newAuthKeyField
  let oldAuthKey ← record.get oldAuthKeyField
  let publicKey ← record.get publicKeyField
  let scheme ← record.get schemeField
  let verified ← record.get verifiedField
  return { newAuthKey, oldAuthKey, publicKey, scheme, verified }

theorem read_eq (text : String) : read text = readRecord probes ofRecord text := rfl

theorem ofRecord_of_denotes {members : List (String × Value)} {ending : Ending}
    (given : (membersUnder names members).Perm texts.fields) (denoted : texts.Denotes rotation) :
    ofRecord ⟨members, ending, false⟩ = .ok rotation := by
  have get {α : Type} (field : Json.Field α) {value : Value}
      (inside : (field.name, value) ∈ texts.fields) :
      Record.get ⟨members, ending, false⟩ field = field.read value := by
    have distinct : (texts.fields.map Prod.fst).Nodup := (by decide : names.Nodup)
    simp only [Record.get, lookup_of_perm given distinct inside]
  have read_text {name text : String} {bytes : Bytes} (literal : Hex.IsLiteralOf text bytes) :
      (bytesField name).read (.text text) = .ok bytes := by
    rw [read_bytesField, Hex.ofLiteral_eq_ok_iff.2 literal]
  rw [ofRecord, get newAuthKeyField (.head _), get oldAuthKeyField (.tail _ (.head _)),
    get publicKeyField (.tail _ (.tail _ (.head _))),
    get schemeField (.tail _ (.tail _ (.tail _ (.head _)))),
    get verifiedField (.tail _ (.tail _ (.tail _ (.tail _ (.head _)))))]
  rw [read_schemeField, newAuthKeyField, read_text denoted.newAuthKey, oldAuthKeyField,
    read_text denoted.oldAuthKey, publicKeyField, read_text denoted.publicKey, verifiedField,
    read_text denoted.verified, denoted.scheme]
  rfl

/-- What is read of a document with some fields: the rotation that they denote, or the fault of a
text that is no literal. -/
theorem read_of_isGivenBy (given : texts.IsGivenBy document) :
    (∃ rotation, texts.Denotes rotation ∧ read document = .ok rotation) ∨
    ∃ text ∈ texts.literals, ∃ wrong, Hex.ofLiteral text = .error wrong ∧
      read document = .error (.refused wrong.message) := by
  obtain ⟨members, written, given⟩ := given
  obtain ⟨blanks, whole⟩ := exists_readRecord_eq written probes ofRecord
  rw [read_eq, whole]
  have distinct : (texts.fields.map Prod.fst).Nodup := (by decide : names.Nodup)
  rcases Record.verify_of_perm probes blanks false given distinct with
    ⟨passed, good⟩ | ⟨field, inside, fault, faulty, refused⟩
  · obtain ⟨rotation, denoted⟩ := exists_denotes good
    rw [passed]
    exact .inl ⟨rotation, denoted, ofRecord_of_denotes given denoted⟩
  · obtain ⟨text, listed, wrong, unread, rfl⟩ := exists_of_memberFault? inside faulty
    rw [refused]
    exact .inr ⟨text, listed, wrong, unread, rfl⟩

/-! ### Checking the public key -/

/-- A public key that is built up as its scheme says. A multi-key is not looked into when its
literal is longer than what is recorded. -/
def IsWellFormed (rotation : KeyRotation) : Prop :=
  match rotation.scheme with
  | .multiEd25519 => 32 < rotation.publicKey.length ∧ rotation.publicKey.length % 32 = 1
  | .multiKey => (∃ key : MultiKey, key.encode = some rotation.publicKey) ∨
    13000 < (Hex.literal rotation.publicKey).length
  | .ed25519 | .singleKey => True

theorem isOversized_iff : rotation.isOversized = true ↔
    13000 < (Hex.literal rotation.publicKey).length := by
  rw [Hex.string_length_literal, isOversized, decide_eq_true_eq, maxLiteralLength]

/-- A rotation passes the check, or the fault is that of its scheme. -/
theorem check_cases (rotation : KeyRotation) :
    (rotation.IsWellFormed ∧ rotation.check = .ok ()) ∨
    ¬ rotation.IsWellFormed ∧
      ((rotation.scheme = .multiEd25519 ∧
        rotation.check = .error (.badMultiEd25519 rotation.publicKey.length)) ∨
      (rotation.scheme = .multiKey ∧ ∃ fault, rotation.check = .error (.badMultiKey fault))) := by
  cases scheme : rotation.scheme with
  | ed25519 | singleKey => exact .inl (by simp [IsWellFormed, check, scheme])
  | multiEd25519 =>
    have shape : (rotation.publicKey.length ≤ 32 ∨ (rotation.publicKey.length - 1) % 32 ≠ 0) ↔
        ¬ rotation.IsWellFormed := by
      simp only [IsWellFormed, scheme]
      omega
    by_cases good : rotation.IsWellFormed
    · simp [check, scheme, ed25519Length, shape, good]
    · simp [check, scheme, ed25519Length, shape, good]
  | multiKey =>
    simp only [check, IsWellFormed, scheme, ← isOversized_iff, ← MultiKey.ofBytes_eq_ok_iff]
    cases rotation.isOversized with
    | true => simp
    | false =>
      cases MultiKey.ofBytes rotation.publicKey <;> simp

theorem isWellFormed_iff : rotation.IsWellFormed ↔ rotation.check = .ok () := by
  rcases check_cases rotation with ⟨good, checked⟩ | ⟨bad, ⟨-, refused⟩ | ⟨-, _, refused⟩⟩
  · simp [good, checked]
  · simp [bad, refused]
  · simp [bad, refused]

/-! ### Accepted documents -/

theorem denotes_texts (rotation : KeyRotation) : rotation.texts.Denotes rotation where
  newAuthKey := Hex.isLiteralOf_literal _
  oldAuthKey := Hex.isLiteralOf_literal _
  publicKey := Hex.isLiteralOf_literal _
  scheme := rfl
  verified := Hex.isLiteralOf_literal _

theorem isGivenBy_document (rotation : KeyRotation) :
    rotation.texts.IsGivenBy rotation.document := by
  refine ⟨_, writes_render ?_, .refl _⟩
  simp only [fields, List.forall_mem_cons]
  exact ⟨.text _, .text _, .text _, .word _, .text _, fun _ none => absurd none List.not_mem_nil⟩

/-- A document whose fields denote a rotation is accepted when the rotation is well-formed. -/
theorem ofDocument_of_denotes (given : texts.IsGivenBy document)
    (denoted : texts.Denotes rotation) :
    (rotation.IsWellFormed ∧ ofDocument document = .ok rotation) ∨
    ¬ rotation.IsWellFormed ∧
      ((rotation.scheme = .multiEd25519 ∧
        ofDocument document = .error (.badMultiEd25519 rotation.publicKey.length)) ∨
      (rotation.scheme = .multiKey ∧ ∃ fault,
        ofDocument document = .error (.badMultiKey fault))) := by
  rcases read_of_isGivenBy given with ⟨found, also, readable⟩ | ⟨text, listed, wrong, unread, -⟩
  · obtain rfl := also.unique denoted
    rw [ofDocument, readable]
    rcases check_cases found with ⟨good, checked⟩ | ⟨bad, ⟨scheme, refused⟩ |
      ⟨scheme, fault, refused⟩⟩
    · exact .inl ⟨good, by simp only [checked]⟩
    · exact .inr ⟨bad, .inl ⟨scheme, by simp only [refused]⟩⟩
    · exact .inr ⟨bad, .inr ⟨scheme, fault, by simp only [refused]⟩⟩
  · -- all the texts are literals
    obtain ⟨bytes, literal⟩ := denoted.exists_of_mem listed
    rw [Hex.ofLiteral_eq_ok_iff.2 literal] at unread
    cases unread

theorem ofDocument_of_not_denotes (given : texts.IsGivenBy document)
    (none : ¬ ∃ rotation, texts.Denotes rotation) : ∃ text ∈ texts.literals, ∃ wrong,
      Hex.ofLiteral text = .error wrong ∧
        ofDocument document = .error (.malformed (.refused wrong.message)) := by
  rcases read_of_isGivenBy given with ⟨found, denoted, -⟩ | ⟨text, listed, wrong, unread, refused⟩
  · exact absurd ⟨found, denoted⟩ none
  · exact ⟨text, listed, wrong, unread, by rw [ofDocument, refused]⟩

/-- Every well-formed rotation is accepted in its own document. -/
theorem ofDocument_document (good : rotation.IsWellFormed) :
    ofDocument rotation.document = .ok rotation := by
  rcases ofDocument_of_denotes (isGivenBy_document rotation) (denotes_texts rotation) with
    ⟨-, accepted⟩ | ⟨bad, -⟩
  · exact accepted
  · exact absurd good bad

/-- The documents with some fields give the rotation that these denote when it is well-formed and
else the fault of its public key, or the fault of a text that is no literal. Every well-formed
rotation has a document, and no other. The literals are `0x` with an even number of digits of
either case, and the bytes that are read are written as the literal in lower case, so two literals
that differ in case only are one and the same text in a row. -/
theorem ofDocument_exact :
    (∀ (texts : RotationTexts) (document : String), texts.IsGivenBy document →
      (∀ rotation, texts.Denotes rotation →
        (rotation.IsWellFormed ∧ ofDocument document = .ok rotation) ∨
        ¬ rotation.IsWellFormed ∧
          ((rotation.scheme = .multiEd25519 ∧ ofDocument document =
            .error (.badMultiEd25519 rotation.publicKey.length)) ∨
          (rotation.scheme = .multiKey ∧ ∃ fault,
            ofDocument document = .error (.badMultiKey fault)))) ∧
      ((¬ ∃ rotation, texts.Denotes rotation) → ∃ text ∈ texts.literals, ∃ wrong,
        Hex.ofLiteral text = .error wrong ∧
          ofDocument document = .error (.malformed (.refused wrong.message)))) ∧
    (∀ rotation : KeyRotation,
      (∃ document, ofDocument document = .ok rotation) ↔ rotation.IsWellFormed) ∧
    (∀ text : String, ((∃ bytes, Hex.ofLiteral text = .ok bytes) ↔
        ∃ digits, text.toList = '0' :: 'x' :: digits ∧ digits.length % 2 = 0 ∧
          ∀ c ∈ digits, Hex.isDigit c = true) ∧
      ∀ bytes, Hex.ofLiteral text = .ok bytes →
        (Hex.literal bytes).toList = text.toList.map Char.toLower) ∧
    (∀ (text other : String) (bytes others : Bytes), Hex.ofLiteral text = .ok bytes →
      Hex.ofLiteral other = .ok others →
        (bytes = others ↔ text.toList.map Char.toLower = other.toList.map Char.toLower)) := by
  refine ⟨fun texts document given => ⟨fun rotation => ofDocument_of_denotes given,
    ofDocument_of_not_denotes given⟩, fun rotation => ⟨?_, ?_⟩, fun text => ⟨?_, ?_⟩, ?_⟩
  · rintro ⟨document, accepted⟩
    exact isWellFormed_iff.2 (check_of_ofDocument accepted)
  · intro good
    exact ⟨_, ofDocument_document good⟩
  · exact Hex.exists_ofLiteral_iff
  · intro bytes read
    exact Hex.toList_literal_of_isLiteralOf (Hex.ofLiteral_eq_ok_iff.1 read)
  · intro text other bytes others read read'
    exact Hex.eq_iff_of_isLiteralOf (Hex.ofLiteral_eq_ok_iff.1 read)
      (Hex.ofLiteral_eq_ok_iff.1 read')

end

namespace MixedCase

/-- Literals in mixed case; the public key has one member twice. -/
def texts : RotationTexts := ⟨"0xaB", "0x", "0x020001cD0001Cd01", .multiKey, "0xC0"⟩

/-- The rotation of these texts. -/
def rotation : KeyRotation :=
  ⟨[0xab], [], [0x02, 0x00, 0x01, 0xcd, 0x00, 0x01, 0xcd, 0x01], .multiKey, [0xc0]⟩

/-- The scheme in front of the other fields, and a member that is no field. -/
def members : List (String × Value) :=
  [("public_key_scheme", .word 3), ("note", .null), ("new_auth_key", .text "0xaB"),
    ("old_auth_key", .text "0x"), ("public_key", .text "0x020001cD0001Cd01"),
    ("verified_public_key_bit_map", .text "0xC0")]

/-- The document with these members. -/
def document : String :=
  "\x7b\"public_key_scheme\":3,\"note\":null,\"new_auth_key\":\"0xaB\",\"old_auth_key\":\"0x\"," ++
    "\"public_key\":\"0x020001cD0001Cd01\",\"verified_public_key_bit_map\":\"0xC0\"\x7d"

theorem isGivenBy_document : texts.IsGivenBy document := by
  have plain : ∀ m ∈ members, m.2.IsPlain := by
    simp only [members, List.forall_mem_cons]
    exact ⟨.word _, .null, .text _, .text _, .text _, .text _,
      fun _ none => absurd none List.not_mem_nil⟩
  have rendered : String.ofList (Value.record members).render = document := by decide +kernel
  have written := writes_render plain
  rw [rendered] at written
  have known : membersUnder names members = ("public_key_scheme", .word 3) ::
      ([("new_auth_key", .text "0xaB"), ("old_auth_key", .text "0x"),
        ("public_key", .text "0x020001cD0001Cd01")] ++
        [("verified_public_key_bit_map", .text "0xC0")]) := by
    simp [membersUnder, names, members]
  refine ⟨members, written, ?_⟩
  rw [known]
  exact List.perm_middle.symm

theorem denotes : texts.Denotes rotation where
  newAuthKey := ⟨['a', 'B'], by decide +kernel, by decide⟩
  oldAuthKey := ⟨[], by decide +kernel, by decide⟩
  publicKey := ⟨"020001cD0001Cd01".toList, by decide +kernel, by decide +kernel⟩
  scheme := rfl
  verified := ⟨['C', '0'], by decide +kernel, by decide⟩

theorem isWellFormed : rotation.IsWellFormed :=
  .inl ⟨⟨[.ed25519 [0xcd], .ed25519 [0xcd]], 1⟩, by decide +kernel⟩

/-- In mixed case and in another order the rotation is accepted as in its own document. -/
theorem ofDocument_mixedCase : texts.IsGivenBy document ∧ texts.Denotes rotation ∧
    rotation.IsWellFormed ∧ ofDocument document = .ok rotation := by
  refine ⟨isGivenBy_document, denotes, isWellFormed, ?_⟩
  rcases (ofDocument_exact.1 _ _ isGivenBy_document).1 _ denotes with ⟨-, accepted⟩ | ⟨bad, -⟩
  · exact accepted
  · exact absurd isWellFormed bad

end MixedCase

end KeyRotation

end IngestLedger
