import IngestLedger.Bytes.Hex
import IngestLedger.Proofs.Applying
import IngestLedger.Proofs.RowLayouts

/-!
# What a record has room for

A record can be written unless one of its texts is too long for the length field in front of it. A
literal has two characters for each byte, which can all stand in a key.

Main statements:

* `IdentityEvent.isStorable_iff_texts`: the events that can be stored.
* `Hex.nameable_literal`, `Hex.length_literal`: literals in keys and records.
-/

namespace IngestLedger

namespace Record

theorem isOk_encode {α : Type} [Row α] {row : α} :
    (encode row).isOk = true ↔ (Row.codec.encode row).isSome := by
  unfold encode
  cases Row.codec.encode row with
  | none => simp [Except.isOk, Except.toBool]
  | some payload => simp [Except.isOk, Except.toBool]

end Record

namespace IdentityEvent

/-- The texts in the record of an event. -/
def texts : IdentityEvent → List String
  | link row => [row.account, row.authKey]
  | member row =>
    row.authKey :: row.publicKey :: row.publicKeyType ::
      (row.accountPublicKey.toList ++ [row.signatureType])

theorem isOk_record_iff {event : IdentityEvent} :
    event.record.isOk = true ↔ ∀ text ∈ event.texts, FitsField text := by
  cases event with
  | link row =>
    rw [record, Record.isOk_encode, (RowType.laysOut .accountLink row).isSome_iff]
    simp [RowType.fields, Field.Fits, texts]
  | member row =>
    rw [record, Record.isOk_encode, (RowType.laysOut .membership row).isSome_iff]
    cases account : row.accountPublicKey with
    | none => simp [RowType.fields, Field.optional, Field.Fits, texts, account]
    | some key => simp [RowType.fields, Field.optional, Field.Fits, texts, account]

/-- An event can be stored when its components can stand in a key and its texts fit their fields. -/
theorem isStorable_iff_texts {event : IdentityEvent} : event.IsStorable ↔
    (∀ c ∈ event.key.components, Nameable c.text) ∧ ∀ text ∈ event.texts, FitsField text := by
  rw [isStorable_iff, isOk_record_iff]

end IdentityEvent

/-! ### Literals -/

namespace Hex

theorem digit_mem (value : Nat) : digit value ∈ digits := by
  unfold digit
  rw [List.getD_eq_getElem?_getD]
  cases found : digits[value]? with
  | none => decide
  | some c => exact List.mem_of_getElem? found

theorem toList_literal (bytes : Bytes) :
    (literal bytes).toList = '0' :: 'x' :: bytes.flatMap ofByte := by
  simp [literal, encode]

theorem mem_toList_literal {bytes : Bytes} {c : Char} (h : c ∈ (literal bytes).toList) :
    c = 'x' ∨ c ∈ digits := by
  rw [toList_literal] at h
  rcases List.mem_cons.1 h with rfl | h
  · exact .inr (by decide)
  · rcases List.mem_cons.1 h with rfl | h
    · exact .inl rfl
    · obtain ⟨byte, -, h⟩ := List.mem_flatMap.1 h
      rcases List.mem_pair.1 h with rfl | rfl
      · exact .inr (digit_mem _)
      · exact .inr (digit_mem _)

/-- A literal can stand in a key. -/
theorem nameable_literal (bytes : Bytes) : Nameable (literal bytes) := by
  constructor
  · intro empty
    have chars := toList_literal bytes
    rw [empty] at chars
    simp at chars
  · intro nul
    rcases mem_toList_literal nul with same | inside
    · exact absurd same (by decide)
    · exact absurd inside (by decide)

theorem length_flatMap_ofByte (bytes : Bytes) :
    (bytes.flatMap ofByte).length = 2 * bytes.length := by
  induction bytes with
  | nil => rfl
  | cons byte bytes ih =>
    have pair : (ofByte byte).length = 2 := rfl
    rw [List.flatMap_cons, List.length_append, ih, pair, List.length_cons]
    omega

/-- A literal takes two bytes for each byte, and two for its front. -/
theorem length_literal (bytes : Bytes) :
    (Utf8.encode (literal bytes)).length = 2 + 2 * bytes.length := by
  have short : ∀ c ∈ (literal bytes).toList, (String.utf8EncodeChar c).length = 1 := by
    intro c member
    rcases mem_toList_literal member with rfl | inside
    · decide
    · have single : (digits.all fun d => (String.utf8EncodeChar d).length == 1) = true := by decide
      exact beq_iff_eq.1 (List.all_eq_true.1 single c inside)
  have chars : (Utf8.encode (literal bytes)).length = (literal bytes).toList.length := by
    rw [Utf8.encode_eq_flatMap, List.length_flatMap, List.map_congr_left short, List.map_const',
      List.sum_replicate_nat, Nat.mul_one]
  rw [chars, toList_literal, List.length_cons, List.length_cons, length_flatMap_ofByte]
  omega

end Hex

end IngestLedger
