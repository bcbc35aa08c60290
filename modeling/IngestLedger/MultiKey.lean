import IngestLedger.Bytes.Uleb128

/-!
# Multi-keys

A multi-key is a list of public keys of different schemes and the number of signatures that it
takes to act for them. It is written as the count of the members, the members, and one byte for
the number of signatures; a member is the number of its scheme and its key. Numbers of members and
bytes are variable-length and at most `2 ^ 31 - 1`.

Main statements:

* `MultiKey.codec_exact`: the members and the signatures are read off bytes exactly when the bytes
  begin with them as they are written, so a multi-key has one written form.
-/

namespace IngestLedger

/-- A key of a person known to an issuer. -/
structure KeylessKey where
  issuer : String
  commitment : Bytes
  deriving DecidableEq, Repr

/-- A keyless key whose issuer's keys are published at an address of 32 bytes. -/
structure FederatedKey where
  address : Bytes
  keyless : KeylessKey
  deriving DecidableEq, Repr

/-- A member of a multi-key. -/
inductive PublicKey where
  | ed25519 (key : Bytes)
  | secp256k1 (key : Bytes)
  | secp256r1 (key : Bytes)
  | keyless (key : KeylessKey)
  | federated (key : FederatedKey)
  deriving DecidableEq, Repr

/-- Public keys, and how many of them must sign. -/
structure MultiKey where
  members : List PublicKey
  required : UInt8
  deriving DecidableEq, Repr

/-- Why bytes are no multi-key. -/
inductive MultiKeyFault where
  | endOfBytes
  | remainingBytes
  | badText
  | tooLong (length : Nat)
  | badNumber (fault : Uleb128.Fault)
  | unknownScheme (number : Nat)
  deriving DecidableEq, Repr

/-- The fault in words. -/
def MultiKeyFault.message : MultiKeyFault → String
  | .endOfBytes | .badNumber .endOfBytes => "unexpected end of input"
  | .remainingBytes => "remaining input"
  | .badText => "malformed utf8"
  | .tooLong length => s!"exceeded max sequence length: {length}"
  | .badNumber .overflow => "ULEB128-encoded integer did not fit in the target size"
  | .badNumber .notMinimal => "ULEB128 encoding was not minimal in size"
  | .unknownScheme number =>
    "invalid value: integer \x60" ++ toString number ++ "\x60, expected variant index 0 <= i < 5"

namespace MultiKey

/-- The greatest length of a sequence. -/
def maxLength : Nat := 0x7FFFFFFF

/-- A variable-length number below `2 ^ 32`. -/
def number : Codec MultiKeyFault Nat where
  encode := Uleb128.encode32
  decode bytes :=
    match Uleb128.decode32 bytes with
    | .ok read => .ok read
    | .error fault => .error (.badNumber fault)

/-- The length of a sequence. -/
def length : Codec MultiKeyFault Nat where
  encode n := if n ≤ maxLength then number.encode n else none
  decode bytes :=
    match number.decode bytes with
    | .error fault => .error fault
    | .ok (n, rest) => if n ≤ maxLength then .ok (n, rest) else .error (.tooLong n)

/-- Bytes behind their length. -/
def bytes : Codec MultiKeyFault Bytes := .lengthPrefixed length .endOfBytes

/-- A text behind its length. -/
def text : Codec MultiKeyFault String := bytes.text fun _ => .badText

/-- A keyless key: the issuer and the commitment. -/
def keyless : Codec MultiKeyFault KeylessKey :=
  (text.pair bytes).via (fun key => (key.issuer, key.commitment)) fun (issuer, commitment) =>
    ⟨issuer, commitment⟩

/-- A federated key: the address and the keyless key. -/
def federated : Codec MultiKeyFault FederatedKey :=
  ((Codec.raw 32 .endOfBytes).pair keyless).via (fun key => (key.address, key.keyless))
    fun (address, keyless) => ⟨address, keyless⟩

/-- The key of a scheme behind the number of the scheme. -/
def tagged (tag : Nat) (key : Option Bytes) : Option Bytes := do
  let front ← number.encode tag
  let back ← key
  return front ++ back

/-- A key of one scheme, read as a member. -/
def readKey {α : Type} (c : Codec MultiKeyFault α) (scheme : α → PublicKey) (input : Bytes) :
    Except MultiKeyFault (PublicKey × Bytes) :=
  match c.decode input with
  | .error fault => .error fault
  | .ok (key, rest) => .ok (scheme key, rest)

/-- A member: the number of its scheme and its key. -/
def member : Codec MultiKeyFault PublicKey where
  encode
    | .ed25519 key => tagged 0 (bytes.encode key)
    | .secp256k1 key => tagged 1 (bytes.encode key)
    | .secp256r1 key => tagged 2 (bytes.encode key)
    | .keyless key => tagged 3 (keyless.encode key)
    | .federated key => tagged 4 (federated.encode key)
  decode input :=
    match number.decode input with
    | .error fault => .error fault
    | .ok (tag, rest) =>
      match tag with
      | 0 => readKey bytes .ed25519 rest
      | 1 => readKey bytes .secp256k1 rest
      | 2 => readKey bytes .secp256r1 rest
      | 3 => readKey keyless .keyless rest
      | 4 => readKey federated .federated rest
      | _ => .error (.unknownScheme tag)

/-- The members and the number of signatures. -/
def codec : Codec MultiKeyFault MultiKey :=
  ((Codec.counted length member).pair (.byte .endOfBytes)).via
    (fun key => (key.members, key.required)) fun (members, required) => ⟨members, required⟩

theorem number_exact : number.Exact := by
  intro input n rest
  simp only [number]
  constructor
  · intro read
    split at read
    · rename_i pair digits
      simp only [Except.ok.injEq] at read
      subst read
      exact Uleb128.decode32_eq_ok_iff.1 digits
    · exact absurd read (by simp)
  · intro written
    rw [Uleb128.decode32_eq_ok_iff.2 written]

theorem length_exact : length.Exact := by
  intro input n rest
  constructor
  · intro read
    simp only [length] at read
    split at read
    · exact absurd read (by simp)
    · rename_i n' rest' readNumber
      split at read
      · rename_i small
        simp only [Except.ok.injEq, Prod.mk.injEq] at read
        obtain ⟨rfl, rfl⟩ := read
        obtain ⟨front, written, rfl⟩ := (number_exact _ _ _).1 readNumber
        exact ⟨front, by simp only [length, small, if_true, written], rfl⟩
      · exact absurd read (by simp)
  · rintro ⟨front, written, rfl⟩
    simp only [length, Option.ite_none_right_eq_some] at written
    obtain ⟨small, written⟩ := written
    simp only [length, number_exact.decode_append written, small, if_true]

theorem bytes_exact : bytes.Exact := Codec.lengthPrefixed_exact _ length_exact

theorem text_exact : text.Exact := Codec.text_exact _ bytes_exact

theorem keyless_exact : keyless.Exact :=
  Codec.via_exact (Codec.pair_exact text_exact bytes_exact) (fun _ => rfl) fun _ => rfl

theorem federated_exact : federated.Exact :=
  Codec.via_exact (Codec.pair_exact (Codec.raw_exact _ _) keyless_exact) (fun _ => rfl) fun _ => rfl

theorem readKey_eq_ok_iff {α : Type} {c : Codec MultiKeyFault α} (exact : c.Exact)
    {scheme : α → PublicKey} {input rest : Bytes} {key : PublicKey} :
    readKey c scheme input = .ok (key, rest) ↔
      ∃ k front, key = scheme k ∧ c.encode k = some front ∧ input = front ++ rest := by
  unfold readKey
  constructor
  · intro read
    split at read
    · exact absurd read (by simp)
    · rename_i k rest' inner
      simp only [Except.ok.injEq, Prod.mk.injEq] at read
      obtain ⟨rfl, rfl⟩ := read
      obtain ⟨front, written, rfl⟩ := (exact _ _ _).1 inner
      exact ⟨k, front, rfl, written, rfl⟩
  · rintro ⟨k, front, rfl, written, rfl⟩
    rw [exact.decode_append written]

theorem tagged_eq_some_iff {tag : Nat} {key : Option Bytes} {whole : Bytes} :
    tagged tag key = some whole ↔
      ∃ front back, number.encode tag = some front ∧ key = some back ∧ whole = front ++ back :=
  Codec.bind_append_eq_some_iff

theorem member_exact : member.Exact := by
  intro input key rest
  constructor
  · intro read
    simp only [member] at read
    split at read
    · exact absurd read (by simp)
    · rename_i tag middle readTag
      obtain ⟨front, written, rfl⟩ := (number_exact _ _ _).1 readTag
      have finish {back : Bytes} {body : Option Bytes} (keyed : body = some back) :
          tagged tag body = some (front ++ back) :=
        tagged_eq_some_iff.2 ⟨front, back, written, keyed, rfl⟩
      split at read
      · obtain ⟨k, back, rfl, keyed, rfl⟩ := (readKey_eq_ok_iff bytes_exact).1 read
        exact ⟨front ++ back, finish keyed, by simp⟩
      · obtain ⟨k, back, rfl, keyed, rfl⟩ := (readKey_eq_ok_iff bytes_exact).1 read
        exact ⟨front ++ back, finish keyed, by simp⟩
      · obtain ⟨k, back, rfl, keyed, rfl⟩ := (readKey_eq_ok_iff bytes_exact).1 read
        exact ⟨front ++ back, finish keyed, by simp⟩
      · obtain ⟨k, back, rfl, keyed, rfl⟩ := (readKey_eq_ok_iff keyless_exact).1 read
        exact ⟨front ++ back, finish keyed, by simp⟩
      · obtain ⟨k, back, rfl, keyed, rfl⟩ := (readKey_eq_ok_iff federated_exact).1 read
        exact ⟨front ++ back, finish keyed, by simp⟩
      · exact absurd read (by simp)
  · rintro ⟨whole, written, rfl⟩
    cases key <;>
      (simp only [member] at written
       obtain ⟨front, back, tagged, keyed, rfl⟩ := tagged_eq_some_iff.1 written
       simp only [member, List.append_assoc, number_exact.decode_append tagged])
    · exact (readKey_eq_ok_iff bytes_exact).2 ⟨_, back, rfl, keyed, rfl⟩
    · exact (readKey_eq_ok_iff bytes_exact).2 ⟨_, back, rfl, keyed, rfl⟩
    · exact (readKey_eq_ok_iff bytes_exact).2 ⟨_, back, rfl, keyed, rfl⟩
    · exact (readKey_eq_ok_iff keyless_exact).2 ⟨_, back, rfl, keyed, rfl⟩
    · exact (readKey_eq_ok_iff federated_exact).2 ⟨_, back, rfl, keyed, rfl⟩

theorem codec_exact : codec.Exact :=
  Codec.via_exact
    (Codec.pair_exact (Codec.counted_exact length_exact member_exact) (Codec.byte_exact _))
    (fun _ => rfl) fun _ => rfl

/-- The bytes that a multi-key is written as, when no length is too great. -/
def encode (key : MultiKey) : Option Bytes := codec.encode key

/-- The multi-key that a whole byte string writes. -/
def ofBytes (input : Bytes) : Except MultiKeyFault MultiKey :=
  codec.decodeAll .remainingBytes input

end MultiKey

namespace PublicKey

/-- The name of the scheme. -/
def typeName : PublicKey → String
  | ed25519 _ => "ed25519"
  | secp256k1 _ => "secp256k1_ecdsa"
  | secp256r1 _ => "secp256r1_ecdsa"
  | keyless _ => "keyless"
  | federated _ => "federated_keyless"

/-- The key without the number of its scheme; a keyless key is its fields as they are written. -/
def bytes : PublicKey → Option Bytes
  | ed25519 key | secp256k1 key | secp256r1 key => some key
  | keyless key => MultiKey.keyless.encode key
  | federated key => MultiKey.federated.encode key

end PublicKey

end IngestLedger
