import IngestLedger.Json.Record
import IngestLedger.Row

/-!
# Rows, ranges and batches in JSON

Each is a record of numbers, texts and flags, written with all its fields in order. When it is
read, an optional field may be null, and an object may leave it out; an array has to give every
field.

Main definitions, for each of the types:

* `ofDocument`: what a document gives, or what is wrong with it.
* `toValue`: the record that it is written as.
-/

namespace IngestLedger

open Json

/-- A field with a number. -/
def numberField (name : String) : Json.Field UInt64 := { name, read := readUInt64 }

/-- A field with a number or null. -/
def optionalField (name : String) : Json.Field (Option UInt64) :=
  { name, read := readOptional readUInt64, absent := some none, absentItem := none }

/-- A field with a text. -/
def textField (name : String) : Json.Field String := { name, read := readText }

/-- A field with a text or null. -/
def optionalTextField (name : String) : Json.Field (Option String) :=
  { name, read := readOptional readText, absent := some none, absentItem := none }

/-- A field with a truth value. -/
def flagField (name : String) : Json.Field Bool := { name, read := readBool }

/-! ## Ranges and batches -/

/-- The range of a document. -/
def VersionRange.ofDocument (text : String) : Except Fault VersionRange :=
  let first := numberField "start"
  let last := optionalField "end"
  readRecord [first.probe, last.probe]
    (fun record => do return ⟨← record.get first, ← record.get last⟩) text

/-- A range as it is written. -/
def VersionRange.toValue (range : VersionRange) : Value :=
  .record [("start", .word range.first), ("end", .optional .word range.last)]

/-- The batch of a document. -/
def BatchInfo.ofDocument (text : String) : Except Fault BatchInfo :=
  let first := numberField "start_version"
  let last := numberField "end_version"
  let timestamp := optionalField "end_transaction_timestamp"
  readRecord [first.probe, last.probe, timestamp.probe]
    (fun record => do
      return ⟨← record.get first, ← record.get last, ← record.get timestamp⟩) text

/-- A batch as it is written. -/
def BatchInfo.toValue (batch : BatchInfo) : Value :=
  .record [("start_version", .word batch.first), ("end_version", .word batch.last),
    ("end_transaction_timestamp", .optional .word batch.timestamp)]

/-! ## Rows about the store -/

/-- The chain that a document names. -/
def ChainRow.ofDocument (text : String) : Except Fault ChainRow :=
  let chain := numberField "chain_id"
  readRecord [chain.probe] (fun record => do return ⟨← record.get chain⟩) text

/-- The row of a chain as it is written. -/
def ChainRow.toValue (row : ChainRow) : Value := .record [("chain_id", .word row.chainId)]

/-- The layout that a document names. -/
def LayoutRow.ofDocument (text : String) : Except Fault LayoutRow :=
  let version : Json.Field UInt32 := { name := "layout_version", read := readUInt32 }
  readRecord [version.probe] (fun record => do return ⟨← record.get version⟩) text

/-- The row of a layout as it is written. -/
def LayoutRow.toValue (row : LayoutRow) : Value :=
  .record [("layout_version", .word row.version.toUInt64)]

/-! ## Progress -/

/-- The progress of a processor as a document gives it. -/
def ProcessorRow.ofDocument (text : String) : Except Fault ProcessorRow :=
  let name := textField "processor_name"
  let last := numberField "last_success_version"
  let updated := numberField "last_updated_at"
  let time := optionalField "last_transaction_timestamp"
  readRecord [name.probe, last.probe, updated.probe, time.probe]
    (fun record => do
      return ⟨← record.get name, ← record.get last, ← record.get updated, ← record.get time⟩) text

/-- The progress of a processor as it is written. -/
def ProcessorRow.toValue (row : ProcessorRow) : Value :=
  .record [("processor_name", .text row.name), ("last_success_version", .word row.lastVersion),
    ("last_updated_at", .word row.updatedAt),
    ("last_transaction_timestamp", .optional .word row.transactionTime)]

/-- The names of the states of a backfill. -/
def BackfillStatus.names : List (String × BackfillStatus) :=
  [("InProgress", .inProgress), ("Complete", .complete)]

/-- The name of the state of a backfill. -/
def BackfillStatus.name : BackfillStatus → String
  | .inProgress => "InProgress"
  | .complete => "Complete"

/-- The progress of a backfill as a document gives it. -/
def BackfillRow.ofDocument (text : String) : Except Fault BackfillRow :=
  let name := textField "backfill_alias"
  let status : Json.Field BackfillStatus :=
    { name := "backfill_status"
      read := readVariant BackfillStatus.names
      opening := variantFault BackfillStatus.names }
  let last := optionalField "last_success_version"
  let updated := numberField "last_updated_at"
  let time := optionalField "last_transaction_timestamp"
  let start := numberField "backfill_start_version"
  let ending := optionalField "ending_version"
  let overwrite := flagField "overwrite_checkpoint"
  readRecord
    [name.probe, status.probe, last.probe, updated.probe, time.probe, start.probe, ending.probe,
      overwrite.probe]
    (fun record => do
      return {
        name := ← record.get name
        status := ← record.get status
        lastVersion := ← record.get last
        updatedAt := ← record.get updated
        transactionTime := ← record.get time
        startVersion := ← record.get start
        endingVersion := ← record.get ending
        overwrite := ← record.get overwrite })
    text

/-- The progress of a backfill as it is written. -/
def BackfillRow.toValue (row : BackfillRow) : Value :=
  .record [("backfill_alias", .text row.name), ("backfill_status", .text row.status.name),
    ("last_success_version", .optional .word row.lastVersion),
    ("last_updated_at", .word row.updatedAt),
    ("last_transaction_timestamp", .optional .word row.transactionTime),
    ("backfill_start_version", .word row.startVersion),
    ("ending_version", .optional .word row.endingVersion),
    ("overwrite_checkpoint", .bool row.overwrite)]

/-! ## Identity rows -/

/-- The link of a document. -/
def AccountLink.ofDocument (text : String) : Except Fault AccountLink :=
  let account := textField "account_address"
  let authKey := textField "auth_key"
  let used := flagField "is_auth_key_used"
  let version := numberField "last_transaction_version"
  readRecord [account.probe, authKey.probe, used.probe, version.probe]
    (fun record => do
      return ⟨← record.get account, ← record.get authKey, ← record.get used,
        ← record.get version⟩) text

/-- A link as it is written. -/
def AccountLink.toValue (row : AccountLink) : Value :=
  .record [("account_address", .text row.account), ("auth_key", .text row.authKey),
    ("is_auth_key_used", .bool row.used), ("last_transaction_version", .word row.version)]

/-- The membership of a document. -/
def Membership.ofDocument (text : String) : Except Fault Membership :=
  let authKey := textField "auth_key"
  let publicKey := textField "public_key"
  let publicKeyType := textField "public_key_type"
  let accountPublicKey := optionalTextField "account_public_key"
  let used := flagField "is_public_key_used"
  let signatureType := textField "signature_type"
  let version := numberField "last_transaction_version"
  readRecord
    [authKey.probe, publicKey.probe, publicKeyType.probe, accountPublicKey.probe, used.probe,
      signatureType.probe, version.probe]
    (fun record => do
      return {
        authKey := ← record.get authKey
        publicKey := ← record.get publicKey
        publicKeyType := ← record.get publicKeyType
        accountPublicKey := ← record.get accountPublicKey
        used := ← record.get used
        signatureType := ← record.get signatureType
        version := ← record.get version })
    text

/-- A membership as it is written. -/
def Membership.toValue (row : Membership) : Value :=
  .record [("auth_key", .text row.authKey), ("public_key", .text row.publicKey),
    ("public_key_type", .text row.publicKeyType),
    ("account_public_key", .optional .text row.accountPublicKey),
    ("is_public_key_used", .bool row.used), ("signature_type", .text row.signatureType),
    ("last_transaction_version", .word row.version)]

end IngestLedger
