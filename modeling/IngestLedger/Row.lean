import IngestLedger.Version

/-!
# Rows

The rows that the ledger keeps: the chain it belongs to, the layout of its keys, the progress of
each processor and of each backfill, and two tables of identity facts. An identity fact carries
the version of the transaction it was read from, and the row of a fact is the newest fact itself.
-/

namespace IngestLedger

/-- The chain whose transactions the ledger follows. -/
structure ChainRow where
  chainId : ChainId
  deriving DecidableEq, Repr

/-- The layout of keys that the store was created with. -/
structure LayoutRow where
  version : UInt32
  deriving DecidableEq, Repr

/-- The layout of keys that this library writes. -/
def LayoutRow.current : LayoutRow := ⟨1⟩

/-- How far a processor has come in live runs. -/
structure ProcessorRow where
  name : String
  lastVersion : Version
  updatedAt : Timestamp
  transactionTime : Option Timestamp
  deriving DecidableEq, Repr

/-- The first version that a live run has still to process. -/
def ProcessorRow.resume (row : ProcessorRow) : Version := row.lastVersion.next

/-- Whether a backfill has reached its ending version. -/
inductive BackfillStatus where
  | inProgress
  | complete
  deriving DecidableEq, Repr

/-- How far a named backfill has come; it has no last version before its first batch. -/
structure BackfillRow where
  name : String
  status : BackfillStatus
  lastVersion : Option Version
  updatedAt : Timestamp
  transactionTime : Option Timestamp
  startVersion : Version
  endingVersion : Option Version
  overwrite : Bool
  deriving DecidableEq, Repr

namespace BackfillRow

/-- The version after the last one, if there is progress. -/
def next? (row : BackfillRow) : Option Version := row.lastVersion.map Version.next

/-- Whether the ending version was reached. -/
def isComplete (row : BackfillRow) : Bool := row.status = .complete

end BackfillRow

/-- At `version`, an authentication key came into use for an account or went out of use. -/
structure AccountLink where
  account : String
  authKey : String
  used : Bool
  version : Version
  deriving DecidableEq, Repr

/-- At `version`, a public key was a member of the key set behind an authentication key, in use
or not; `accountPublicKey` is the key of the whole set, where the member was read from one. -/
structure Membership where
  authKey : String
  publicKey : String
  publicKeyType : String
  accountPublicKey : Option String
  used : Bool
  signatureType : String
  version : Version
  deriving DecidableEq, Repr

end IngestLedger
