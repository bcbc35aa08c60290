import IngestLedger.Row.Record

/-!
# The layout of stored rows

A row is stored as its fields in order and its checksum. Nothing else is read as the row but bytes
that begin with these fields and end with the checksum of all before it: a value is read as a row
exactly when it is the row's own encoding, up to bytes between the fields and the checksum.

Main definitions:

* `Field`, `Field.bytes`: the fields of rows, and the bytes that each is stored as.
* `RowType`, `RowType.fields`: the types of rows, and the fields of a row in order.
* `Codec.LaysOut`: a format writes a value as given fields.

Main statements:

* `Record.decode_eq_ok_iff`: when a value is read as a row, for any type with a stored form.
* `RowType.laysOut`: each type of row is written field by field.
* `RowType.decode_exactly_encodings`: what is read as a row is what the row is written as.
-/

namespace IngestLedger

/-! ### Fields -/

/-- A text that is not too long for the length field in front of it. -/
def FitsField (text : String) : Prop := (Utf8.encode text).length < UInt64.size

instance (text : String) : Decidable (FitsField text) := inferInstanceAs (Decidable (_ < _))

/-- A field of a stored row: a number, the number of a variant or a layout, a text, a flag, or a
field that may be missing. -/
inductive Field where
  | number (value : UInt64)
  | index (value : UInt32)
  | text (value : String)
  | flag (value : Bool)
  | absent
  | present (field : Field)
  deriving DecidableEq, Repr

namespace Field

/-- The bytes of a field: numbers in eight little-endian digits and indices in four, a text behind
its length, a flag in one byte, and one byte that tells whether an optional field is there. -/
def bytes : Field → Bytes
  | number value => Bytes.ofNatLE 8 value.toNat
  | index value => Bytes.ofNatLE 4 value.toNat
  | text value => Bytes.ofNatLE 8 (Utf8.encode value).length ++ Utf8.encode value
  | flag value => [if value then 1 else 0]
  | absent => [0]
  | present field => 1 :: field.bytes

/-- The text in a field fits its length. -/
def Fits : Field → Prop
  | text value => FitsField value
  | present field => field.Fits
  | number _ | index _ | flag _ | absent => True

instance decidableFits : (field : Field) → Decidable field.Fits
  | text value => inferInstanceAs (Decidable (FitsField value))
  | present field => field.decidableFits
  | number _ | index _ | flag _ | absent => .isTrue trivial

/-- The field of a value that may be missing. -/
def optional {α : Type} (field : α → Field) : Option α → Field
  | none => absent
  | some value => present (field value)

end Field

/-! ### Formats that write fields -/

namespace Codec

variable {α β : Type}

/-- A format writes a value as some fields, unless a text among them is too long. -/
def LaysOut (c : Codec RowFault α) (value : α) (fields : List Field) : Prop :=
  ∀ bytes, c.encode value = some bytes ↔
    (∀ f ∈ fields, f.Fits) ∧ bytes = fields.flatMap Field.bytes

variable {c : Codec RowFault α} {d : Codec RowFault β} {fields others : List Field}

theorem laysOut_single_iff {value : α} {field : Field} : c.LaysOut value [field] ↔
    ∀ bytes, c.encode value = some bytes ↔ field.Fits ∧ bytes = field.bytes := by
  simp only [LaysOut, List.forall_mem_singleton, List.flatMap_singleton]

theorem LaysOut.isSome_iff {value : α} (h : c.LaysOut value fields) :
    (c.encode value).isSome ↔ ∀ f ∈ fields, f.Fits := by
  rw [Option.isSome_iff_exists]
  constructor
  · rintro ⟨bytes, written⟩
    exact ((h bytes).1 written).1
  · intro fits
    exact ⟨_, (h _).2 ⟨fits, rfl⟩⟩

theorem LaysOut.pair {a : α} {b : β} (h₁ : c.LaysOut a fields) (h₂ : d.LaysOut b others) :
    (c.pair d).LaysOut (a, b) (fields ++ others) := by
  intro bytes
  rw [List.forall_mem_append, List.flatMap_append]
  exact bind_append_eq_some_iff_and h₁ h₂ bytes

theorem LaysOut.optional {field : α → Field} (h : ∀ value, c.LaysOut value [field value])
    (value : Option α) : (RowFormat.optional c).LaysOut value [.optional field value] := by
  refine laysOut_single_iff.2 fun bytes => ?_
  cases value with
  | none =>
    simp [RowFormat.optional, Codec.option, Field.optional, Field.Fits, Field.bytes, eq_comm]
  | some inner =>
    have written := laysOut_single_iff.1 (h inner)
    simp only [RowFormat.optional, Codec.option, Option.map_eq_some_iff, written]
    constructor
    · rintro ⟨_, ⟨fits, rfl⟩, rfl⟩
      exact ⟨fits, rfl⟩
    · rintro ⟨fits, rfl⟩
      exact ⟨_, ⟨fits, rfl⟩, rfl⟩

end Codec

namespace RowFormat

theorem number_laysOut (value : UInt64) : number.LaysOut value [.number value] :=
  Codec.laysOut_single_iff.2 fun bytes => by
    simp [number, Codec.uint64, Codec.word, Field.Fits, Field.bytes, eq_comm]

theorem index_laysOut (value : UInt32) :
    (Codec.uint32 RowFault.endOfBytes).LaysOut value [.index value] :=
  Codec.laysOut_single_iff.2 fun bytes => by
    simp [Codec.uint32, Codec.word, Field.Fits, Field.bytes, eq_comm]

theorem flag_laysOut (value : Bool) : flag.LaysOut value [.flag value] :=
  Codec.laysOut_single_iff.2 fun bytes => by
    simp [flag, Codec.bool, Field.Fits, Field.bytes, eq_comm]

theorem text_laysOut (value : String) : text.LaysOut value [.text value] := by
  refine Codec.laysOut_single_iff.2 fun bytes => ?_
  have capacity : Nat.pow 256 8 = UInt64.size := rfl
  simp only [text, Codec.text, Codec.lengthPrefixed, Codec.natLE, capacity, Field.Fits, Field.bytes,
    FitsField]
  by_cases fits : (Utf8.encode value).length < UInt64.size
  · simp [fits, eq_comm]
  · simp [fits]

/-- The number of a status among the variants of its type. -/
def statusIndex : BackfillStatus → UInt32
  | .inProgress => 0
  | .complete => 1

theorem status_laysOut (value : BackfillStatus) :
    status.LaysOut value [.index (statusIndex value)] := by
  refine Codec.laysOut_single_iff.2 fun bytes => ?_
  have digits : status.encode value = some (Field.index (statusIndex value)).bytes := by
    cases value <;> rfl
  simp [digits, Field.Fits, eq_comm]

end RowFormat

/-! ### The types of rows -/

/-- The types of rows that a store keeps. -/
inductive RowType where
  | chain
  | layout
  | processor
  | backfill
  | accountLink
  | membership
  deriving DecidableEq, Repr

namespace RowType

/-- The rows of a type. -/
abbrev Carrier : RowType → Type
  | chain => ChainRow
  | layout => LayoutRow
  | processor => ProcessorRow
  | backfill => BackfillRow
  | accountLink => AccountLink
  | membership => Membership

instance : (type : RowType) → Row type.Carrier
  | chain => inferInstanceAs (Row ChainRow)
  | layout => inferInstanceAs (Row LayoutRow)
  | processor => inferInstanceAs (Row ProcessorRow)
  | backfill => inferInstanceAs (Row BackfillRow)
  | accountLink => inferInstanceAs (Row AccountLink)
  | membership => inferInstanceAs (Row Membership)

/-- The fields of a row, in the order in which they are stored. -/
def fields : (type : RowType) → type.Carrier → List Field
  | chain, row => [.number row.chainId]
  | layout, row => [.index row.version]
  | processor, row =>
    [.text row.name, .number row.lastVersion, .number row.updatedAt,
      .optional .number row.transactionTime]
  | backfill, row =>
    [.text row.name, .index (RowFormat.statusIndex row.status), .optional .number row.lastVersion,
      .number row.updatedAt, .optional .number row.transactionTime, .number row.startVersion,
      .optional .number row.endingVersion, .flag row.overwrite]
  | accountLink, row =>
    [.text row.account, .text row.authKey, .flag row.used, .number row.version]
  | membership, row =>
    [.text row.authKey, .text row.publicKey, .text row.publicKeyType,
      .optional .text row.accountPublicKey, .flag row.used, .text row.signatureType,
      .number row.version]

/-- The bytes of the fields of a row. -/
def bytes (type : RowType) (row : type.Carrier) : Bytes := (type.fields row).flatMap Field.bytes

/-- The texts of a row fit their lengths. -/
def Fits (type : RowType) (row : type.Carrier) : Prop := ∀ f ∈ type.fields row, f.Fits

instance (type : RowType) (row : type.Carrier) : Decidable (type.Fits row) :=
  inferInstanceAs (Decidable (∀ f ∈ type.fields row, f.Fits))

open RowFormat in
/-- Each type of row is written field by field. -/
theorem laysOut (type : RowType) (row : type.Carrier) :
    (Row.codec : Codec RowFault type.Carrier).LaysOut row (type.fields row) := by
  have time := Codec.LaysOut.optional number_laysOut
  have key := Codec.LaysOut.optional text_laysOut
  -- a row is written as the tuple of its fields, so the layouts of these only have to be joined
  cases type with
  | chain => exact number_laysOut _
  | layout => exact index_laysOut _
  | processor =>
    exact (text_laysOut _).pair ((number_laysOut _).pair ((number_laysOut _).pair (time _)))
  | backfill =>
    exact (text_laysOut _).pair ((status_laysOut _).pair ((time _).pair ((number_laysOut _).pair
      ((time _).pair ((number_laysOut _).pair ((time _).pair (flag_laysOut _)))))))
  | accountLink =>
    exact (text_laysOut _).pair ((text_laysOut _).pair ((flag_laysOut _).pair (number_laysOut _)))
  | membership =>
    exact (text_laysOut _).pair ((text_laysOut _).pair ((text_laysOut _).pair ((key _).pair
      ((flag_laysOut _).pair ((text_laysOut _).pair (number_laysOut _))))))

end RowType

/-! ### Stored values -/

namespace Record

/-- Four bytes are the checksum of a payload if the number they write is. -/
theorem verify_iff {payload tail : Bytes} (four : tail.length = 4) :
    Crc32.verify payload (Bytes.toNatLE tail).toUInt32 = true ↔ tail = Crc32.stored payload := by
  have small : Bytes.toNatLE tail < Nat.pow 256 4 := by
    rw [← four]
    exact Bytes.toNatLE_lt tail
  have value : (Bytes.toNatLE tail).toUInt32.toNat = Bytes.toNatLE tail := by
    simpa using Nat.mod_eq_of_lt small
  unfold Crc32.verify Crc32.stored
  rw [decide_eq_true_iff]
  constructor
  · intro same
    rw [same, value, ← four, Bytes.ofNatLE_toNatLE]
  · rintro rfl
    rw [Bytes.toNatLE_ofNatLE (Crc32.checksum payload).toNat_lt]
    simp

/-- A value is read as a row when its last four bytes are the checksum of those before them, and
those begin with the row. -/
theorem decode_eq_ok_iff {α : Type} [Row α] {key value : Bytes} {row : α} :
    decode key value = .ok row ↔ 4 ≤ value.length ∧
      value.drop (value.length - 4) = Crc32.stored (value.take (value.length - 4)) ∧
      ∃ front, Row.codec.encode row = some front ∧ front <+: value.take (value.length - 4) := by
  unfold decode
  by_cases short : value.length < 4
  · rw [if_pos short]
    refine iff_of_false (fun read => ?_) fun long => absurd long.1 (Nat.not_le.2 short)
    cases read
  · rw [if_neg short]
    have long : 4 ≤ value.length := Nat.not_lt.1 short
    have four : (value.drop (value.length - 4)).length = 4 := by
      rw [List.length_drop]
      omega
    simp only [split, verify_iff four, long, true_and]
    by_cases checked : value.drop (value.length - 4) = Crc32.stored (value.take (value.length - 4))
    · rw [if_pos checked]
      simp only [checked, true_and]
      constructor
      · intro read
        split at read
        · rename_i found rest taken
          obtain rfl := Except.ok.inj read
          obtain ⟨front, written, whole⟩ := (Row.exact _ _ _).1 taken
          exact ⟨front, written, rest, whole.symm⟩
        · cases read
      · rintro ⟨front, written, rest, whole⟩
        rw [← whole, Codec.Exact.decode_append Row.exact written rest]
    · rw [if_neg checked]
      refine iff_of_false (fun read => ?_) fun all => checked all.1
      cases read

end Record

namespace RowType

theorem encode_of_fits {type : RowType} {row : type.Carrier} (fits : type.Fits row) :
    Record.encode row = .ok (type.bytes row ++ Crc32.stored (type.bytes row)) := by
  have written : Row.codec.encode row = some (type.bytes row) := (type.laysOut row _).2 ⟨fits, rfl⟩
  simp only [Record.encode, written, Record.checksummed]

theorem decode_iff {type : RowType} {row : type.Carrier} {key value : Bytes} :
    Record.decode key value = .ok row ↔ type.Fits row ∧ 4 ≤ value.length ∧
      value.drop (value.length - 4) = Crc32.stored (value.take (value.length - 4)) ∧
      type.bytes row <+: value.take (value.length - 4) := by
  rw [Record.decode_eq_ok_iff]
  constructor
  · rintro ⟨long, checked, front, written, begins⟩
    obtain ⟨fits, rfl⟩ := (type.laysOut row front).1 written
    exact ⟨fits, long, checked, begins⟩
  · rintro ⟨fits, long, checked, begins⟩
    exact ⟨long, checked, _, (type.laysOut row _).2 ⟨fits, rfl⟩, begins⟩

/-- Where the bytes of one row begin with those of another, the rows are the same. -/
theorem eq_of_isPrefix_bytes {type : RowType} {row other : type.Carrier} (fits : type.Fits row)
    (fitsOther : type.Fits other) (begins : type.bytes row <+: type.bytes other) : row = other := by
  obtain ⟨rest, whole⟩ := begins
  have written : Row.codec.encode row = some (type.bytes row) := (type.laysOut row _).2 ⟨fits, rfl⟩
  have writtenOther : Row.codec.encode other = some (type.bytes other) :=
    (type.laysOut other _).2 ⟨fitsOther, rfl⟩
  have read := Codec.Exact.decode_append Row.exact written rest
  rw [whole, ← List.append_nil (type.bytes other),
    Codec.Exact.decode_append Row.exact writtenOther] at read
  exact (Prod.mk.inj (Except.ok.inj read)).1.symm

/-- Stored values are read as the rows that they encode, and as no others. A row is written as its
fields, unless one of its texts is too long for the length in front. A value is read as the row
exactly when it has at least four bytes, the last four are the checksum of those before them, and
those begin with the row. What is written for a row is read back, and the bytes of two different
rows of a type never begin with one another. -/
theorem decode_exactly_encodings (type : RowType) (row : type.Carrier) :
    (∀ front, Row.codec.encode row = some front ↔ type.Fits row ∧ front = type.bytes row) ∧
    (∀ key value, Record.decode key value = .ok row ↔ type.Fits row ∧ 4 ≤ value.length ∧
      value.drop (value.length - 4) = Crc32.stored (value.take (value.length - 4)) ∧
      type.bytes row <+: value.take (value.length - 4)) ∧
    (type.Fits row →
      Record.encode row = .ok (type.bytes row ++ Crc32.stored (type.bytes row)) ∧
      ∀ key, Record.decode key (type.bytes row ++ Crc32.stored (type.bytes row)) = .ok row) ∧
    ∀ other, type.Fits row → type.Fits other → row ≠ other →
      ¬ type.bytes row <+: type.bytes other := by
  refine ⟨type.laysOut row, fun _ _ => decode_iff, fun fits => ?_, ?_⟩
  · have written := encode_of_fits fits
    exact ⟨written, Record.decode_encode written⟩
  · intro other fits fitsOther different begins
    exact different (eq_of_isPrefix_bytes fits fitsOther begins)

/-- A backfill with no progress yet. -/
def startedBackfill : BackfillRow := ⟨"p_b", .inProgress, none, 7, some 9, 3, none, true⟩

/-- A stored backfill with a byte between its fields and the checksum, the value that is written for
it, and a backfill that differs in its last field. -/
theorem decode_startedBackfill :
    Record.decode [5] ([3, 0, 0, 0, 0, 0, 0, 0, 112, 95, 98] ++ [0, 0, 0, 0] ++ [0] ++
      [7, 0, 0, 0, 0, 0, 0, 0] ++ [1, 9, 0, 0, 0, 0, 0, 0, 0] ++ [3, 0, 0, 0, 0, 0, 0, 0] ++ [0] ++
      [1] ++ [0xFF] ++ [214, 142, 1, 210]) = .ok startedBackfill ∧
    Record.decode [5] (bytes .backfill startedBackfill ++
      Crc32.stored (bytes .backfill startedBackfill)) = .ok startedBackfill ∧
    ¬ bytes .backfill startedBackfill <+:
      bytes .backfill { startedBackfill with overwrite := false } := by
  obtain ⟨-, reads, roundTrip, different⟩ := decode_exactly_encodings .backfill startedBackfill
  have fits : Fits .backfill startedBackfill := by decide
  refine ⟨(reads _ _).2 ⟨fits, by decide, by decide +kernel, by decide⟩, (roundTrip fits).2 _, ?_⟩
  exact different _ fits (by decide) (by decide)

end RowType

end IngestLedger
