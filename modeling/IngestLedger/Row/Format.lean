import IngestLedger.Codec
import IngestLedger.Row

/-!
# The stored form of rows

A row is written as its fields one after another: numbers in little-endian digits, a text as its
length in eight digits and its UTF-8 bytes, an optional field as a byte that tells whether it is
there, a flag as a byte, a status as a number in four digits.

Main statements:

* `Row.exact`: for each type of row, bytes read as a row exactly when they begin with that row as
  it is written.
-/

namespace IngestLedger

/-- Why bytes do not begin with a row. -/
inductive RowFault where
  /-- The bytes end inside a number, a flag or the mark of an optional field. -/
  | endOfBytes
  /-- Fewer bytes are left than the length of a text says. -/
  | shortText
  | badFlag (byte : UInt8)
  | badOption (byte : UInt8)
  | badStatus (number : UInt32)
  | badText (fault : Utf8.Fault)
  deriving DecidableEq, Repr

/-- The fault in words. -/
def RowFault.message : RowFault → String
  | .endOfBytes => "io error: unexpected end of file"
  | .shortText => "io error: "
  | .badFlag byte => s!"invalid u8 while decoding bool, expected 0 or 1, found {byte}"
  | .badOption byte => s!"tag for enum is not valid, found {byte}"
  | .badStatus number =>
    "invalid value: integer \x60" ++ toString number ++ "\x60, expected variant index 0 <= i < 2"
  | .badText fault => "string is not valid utf8: " ++ fault.message

namespace RowFormat

/-- A number in eight digits. -/
def number : Codec RowFault UInt64 := .uint64 .endOfBytes

/-- A text behind its length. -/
def text : Codec RowFault String :=
  (Codec.lengthPrefixed (.natLE 8 .endOfBytes) .shortText).text fun bytes =>
    .badText (Utf8.fault bytes)

/-- A flag. -/
def flag : Codec RowFault Bool := .bool .endOfBytes .badFlag

/-- A field that may be missing. -/
def optional {α : Type} (c : Codec RowFault α) : Codec RowFault (Option α) :=
  c.option .endOfBytes .badOption

/-- The status of a backfill. -/
def status : Codec RowFault BackfillStatus where
  encode
    | .inProgress => some [0, 0, 0, 0]
    | .complete => some [1, 0, 0, 0]
  decode bytes :=
    match (Codec.uint32 RowFault.endOfBytes).decode bytes with
    | .error fault => .error fault
    | .ok (n, rest) =>
      if n = 0 then .ok (.inProgress, rest)
      else if n = 1 then .ok (.complete, rest)
      else .error (.badStatus n)

theorem number_exact : number.Exact := Codec.uint64_exact _

theorem flag_exact : flag.Exact := Codec.bool_exact _ _

theorem optional_exact {α : Type} {c : Codec RowFault α} (h : c.Exact) : (optional c).Exact :=
  Codec.option_exact _ _ h

theorem text_exact : text.Exact :=
  Codec.text_exact _ (Codec.lengthPrefixed_exact _ (Codec.natLE_exact _ _))

theorem status_exact : status.Exact := by
  intro bytes value rest
  have exact := Codec.uint32_exact RowFault.endOfBytes
  constructor
  · intro read
    simp only [status] at read
    split at read
    · exact absurd read (by simp)
    · rename_i n rest' readNumber
      obtain ⟨front, written, rfl⟩ := (exact _ _ _).1 readNumber
      split at read
      · rename_i zero
        simp only [Except.ok.injEq, Prod.mk.injEq] at read
        obtain ⟨rfl, rfl⟩ := read
        subst zero
        exact ⟨front, written, rfl⟩
      · split at read
        · rename_i one
          simp only [Except.ok.injEq, Prod.mk.injEq] at read
          obtain ⟨rfl, rfl⟩ := read
          subst one
          exact ⟨front, written, rfl⟩
        · exact absurd read (by simp)
  · rintro ⟨front, written, rfl⟩
    cases value with
    | inProgress =>
      have zero : (Codec.uint32 RowFault.endOfBytes).encode 0 = some front := written
      simp [status, exact.decode_append zero]
    | complete =>
      have one : (Codec.uint32 RowFault.endOfBytes).encode 1 = some front := written
      simp [status, exact.decode_append one]

end RowFormat

/-- A type of row with its stored form. -/
class Row (α : Type) where
  codec : Codec RowFault α
  exact : codec.Exact

open RowFormat

instance : Row ChainRow where
  codec := number.via ChainRow.chainId ChainRow.mk
  exact := Codec.via_exact number_exact (fun _ => rfl) fun _ => rfl

instance : Row LayoutRow where
  codec := (Codec.uint32 .endOfBytes).via LayoutRow.version LayoutRow.mk
  exact := Codec.via_exact (Codec.uint32_exact _) (fun _ => rfl) fun _ => rfl

instance : Row ProcessorRow where
  codec := (text.pair (number.pair (number.pair (optional number)))).via
    (fun r => (r.name, r.lastVersion, r.updatedAt, r.transactionTime))
    fun (name, last, updated, time) => ⟨name, last, updated, time⟩
  exact := Codec.via_exact
    (Codec.pair_exact text_exact (Codec.pair_exact number_exact
      (Codec.pair_exact number_exact (optional_exact number_exact))))
    (fun _ => rfl) fun _ => rfl

instance : Row BackfillRow where
  codec := (text.pair (status.pair ((optional number).pair (number.pair ((optional number).pair
    (number.pair ((optional number).pair flag))))))).via
    (fun r => (r.name, r.status, r.lastVersion, r.updatedAt, r.transactionTime, r.startVersion,
      r.endingVersion, r.overwrite))
    fun (name, status, last, updated, time, start, ending, overwrite) =>
      ⟨name, status, last, updated, time, start, ending, overwrite⟩
  exact := Codec.via_exact
    (Codec.pair_exact text_exact (Codec.pair_exact status_exact
      (Codec.pair_exact (optional_exact number_exact) (Codec.pair_exact number_exact
        (Codec.pair_exact (optional_exact number_exact) (Codec.pair_exact number_exact
          (Codec.pair_exact (optional_exact number_exact) flag_exact)))))))
    (fun _ => rfl) fun _ => rfl

instance : Row AccountLink where
  codec := (text.pair (text.pair (flag.pair number))).via
    (fun r => (r.account, r.authKey, r.used, r.version))
    fun (account, authKey, used, version) => ⟨account, authKey, used, version⟩
  exact := Codec.via_exact
    (Codec.pair_exact text_exact (Codec.pair_exact text_exact
      (Codec.pair_exact flag_exact number_exact)))
    (fun _ => rfl) fun _ => rfl

instance : Row Membership where
  codec := (text.pair (text.pair (text.pair ((optional text).pair (flag.pair
    (text.pair number)))))).via
    (fun r => (r.authKey, r.publicKey, r.publicKeyType, r.accountPublicKey, r.used,
      r.signatureType, r.version))
    fun (authKey, publicKey, keyType, accountKey, used, signature, version) =>
      ⟨authKey, publicKey, keyType, accountKey, used, signature, version⟩
  exact := Codec.via_exact
    (Codec.pair_exact text_exact (Codec.pair_exact text_exact (Codec.pair_exact text_exact
      (Codec.pair_exact (optional_exact text_exact) (Codec.pair_exact flag_exact
        (Codec.pair_exact text_exact number_exact))))))
    (fun _ => rfl) fun _ => rfl

end IngestLedger
