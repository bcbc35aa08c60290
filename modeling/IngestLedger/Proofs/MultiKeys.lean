import IngestLedger.MultiKey

/-!
# The members of a multi-key

A multi-key that was read off bytes is written as these bytes, and each of its members is written
as a part of them; so the bytes of each member are known and are not longer than the whole.

Main statements:

* `MultiKey.ofBytes_eq_ok_iff`: a multi-key is read exactly off what it is written as.
* `MultiKey.exists_bytes_of_mem`: the bytes of a member.
-/

namespace IngestLedger

namespace Codec

variable {ε α : Type} {c : Codec ε α}

/-- A whole byte string is read as a value exactly when the value is written as it. -/
theorem Exact.decodeAll_eq_ok_iff (exact : c.Exact) {trailing : ε} {bytes : Bytes} {value : α} :
    c.decodeAll trailing bytes = .ok value ↔ c.encode value = some bytes := by
  unfold decodeAll
  constructor
  · intro whole
    split at whole
    · rename_i found read
      obtain ⟨front, written, rfl⟩ := (exact _ _ _).1 read
      rw [← Except.ok.inj whole, written, List.append_nil]
    · cases whole
    · cases whole
  · intro written
    have read := exact.decode_append written []
    rw [List.append_nil] at read
    rw [read]

/-- Each of several values is written as a part of the whole. -/
theorem exists_encode_of_mem_repeated {count : Nat} {values : List α} {whole : Bytes}
    (written : (repeated c count).encode values = some whole) {value : α}
    (member : value ∈ values) :
    ∃ part, c.encode value = some part ∧ part.length ≤ whole.length := by
  induction count generalizing values whole with
  | zero =>
    rw [List.eq_nil_of_length_eq_zero (length_of_repeated_encode written)] at member
    cases member
  | succ count ih =>
    cases values with
    | nil => cases member
    | cons head tail =>
      obtain ⟨front, back, writtenHead, writtenTail, rfl⟩ := bind_append_eq_some_iff.1 written
      rcases List.mem_cons.1 member with rfl | member
      · refine ⟨front, writtenHead, ?_⟩
        rw [List.length_append]
        omega
      · obtain ⟨part, writtenPart, short⟩ := ih writtenTail member
        refine ⟨part, writtenPart, ?_⟩
        rw [List.length_append]
        omega

theorem exists_encode_of_mem_counted {length : Codec ε Nat} {values : List α} {whole : Bytes}
    (written : (counted length c).encode values = some whole) {value : α}
    (member : value ∈ values) :
    ∃ part, c.encode value = some part ∧ part.length ≤ whole.length := by
  obtain ⟨front, back, -, writtenBack, rfl⟩ := bind_append_eq_some_iff.1 written
  obtain ⟨part, writtenPart, short⟩ := exists_encode_of_mem_repeated writtenBack member
  refine ⟨part, writtenPart, ?_⟩
  rw [List.length_append]
  omega

end Codec

namespace MultiKey

/-- A multi-key is read off the bytes that it is written as, and off no others. -/
theorem ofBytes_eq_ok_iff {input : Bytes} {key : MultiKey} :
    ofBytes input = .ok key ↔ key.encode = some input :=
  codec_exact.decodeAll_eq_ok_iff

theorem length_le_of_bytes {key whole : Bytes} (written : bytes.encode key = some whole) :
    key.length ≤ whole.length := by
  simp only [bytes, Codec.lengthPrefixed, Option.bind_eq_bind, Option.bind_eq_some_iff,
    Option.pure_def, Option.some.injEq] at written
  obtain ⟨front, -, rfl⟩ := written
  rw [List.length_append]
  omega

/-- The bytes of a member are a part of what it is written as. -/
theorem exists_bytes_of_member {key : PublicKey} {whole : Bytes}
    (written : member.encode key = some whole) :
    ∃ bytes, key.bytes = some bytes ∧ bytes.length ≤ whole.length := by
  have behind {tag : Nat} {body : Option Bytes} (tagged : tagged tag body = some whole) :
      ∃ back, body = some back ∧ back.length ≤ whole.length := by
    obtain ⟨front, back, -, keyed, rfl⟩ := tagged_eq_some_iff.1 tagged
    refine ⟨back, keyed, ?_⟩
    rw [List.length_append]
    omega
  cases key with
  | ed25519 key =>
    obtain ⟨back, keyed, short⟩ := behind written
    exact ⟨key, rfl, Nat.le_trans (length_le_of_bytes keyed) short⟩
  | secp256k1 key =>
    obtain ⟨back, keyed, short⟩ := behind written
    exact ⟨key, rfl, Nat.le_trans (length_le_of_bytes keyed) short⟩
  | secp256r1 key =>
    obtain ⟨back, keyed, short⟩ := behind written
    exact ⟨key, rfl, Nat.le_trans (length_le_of_bytes keyed) short⟩
  | keyless key => exact behind written
  | federated key => exact behind written

/-- The bytes of a member of a multi-key are a part of what the multi-key is written as. -/
theorem exists_bytes_of_mem {input : Bytes} {key : MultiKey} (read : ofBytes input = .ok key)
    {m : PublicKey} (inside : m ∈ key.members) :
    ∃ bytes, m.bytes = some bytes ∧ bytes.length ≤ input.length := by
  have written := ofBytes_eq_ok_iff.1 read
  obtain ⟨front, back, writtenMembers, -, rfl⟩ := Codec.bind_append_eq_some_iff.1 written
  obtain ⟨part, writtenPart, short⟩ := Codec.exists_encode_of_mem_counted writtenMembers inside
  obtain ⟨bytes, hbytes, shorter⟩ := exists_bytes_of_member writtenPart
  refine ⟨bytes, hbytes, ?_⟩
  rw [List.length_append]
  omega

end MultiKey

end IngestLedger
