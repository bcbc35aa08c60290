import IngestLedger.Bytes.Hex
import IngestLedger.Version

/-!
# Errors

What a store and the ledger over it can answer instead of a result. An error is fatal when going
on could damage the ledger, and retryable when the same call may succeed later.
-/

namespace IngestLedger

/-- Why a store cannot answer. -/
inductive StoreError where
  | io (reason : String)
  | corruption (reason : String)
  | notFound
  deriving DecidableEq, Repr

/-- The error in words. -/
def StoreError.message : StoreError → String
  | .io reason => "KV store I/O error: " ++ reason
  | .corruption reason => "KV store corruption: " ++ reason
  | .notFound => "Key not found in KV store"

/-- Why the ledger cannot do what it is asked. -/
inductive LedgerError where
  /-- The store belongs to another chain. -/
  | chainMismatch (stored attempted : ChainId)
  /-- A write before the chain of the store was verified. -/
  | chainNotVerified
  /-- The store was created with another layout of keys. -/
  | layoutMismatch (stored expected : UInt32)
  /-- A stored value does not have the checksum that stands behind it. -/
  | dataCorruption (key : String) (expected actual : UInt32)
  /-- A backfill is asked to go beyond its end. -/
  | pastEndingVersion (name : String) (version ending : Version)
  /-- A backfill is moved that was neither started nor has a row. -/
  | backfillNotStarted (name : String)
  /-- A component of a key is empty or holds a NUL. -/
  | invalidKey (reason : String)
  /-- The data directory is held by another ledger. -/
  | databaseLocked (reason : String)
  /-- The store failed. -/
  | database (reason : String)
  /-- A row cannot be written or read. -/
  | serialization (reason : String)
  deriving DecidableEq, Repr

namespace LedgerError

/-- The error in words. -/
def message : LedgerError → String
  | chainMismatch stored attempted =>
    s!"Chain id mismatch: store belongs to chain {stored}, attempted {attempted}"
  | chainNotVerified => "Chain id not verified: call initialize_or_verify before writing"
  | layoutMismatch stored expected =>
    s!"Store layout version {stored} does not match expected {expected}"
  | dataCorruption key expected actual =>
    "Data corruption at key " ++ key ++ ": expected checksum " ++ Hex.word expected ++ ", got " ++
      Hex.word actual
  | pastEndingVersion name version ending =>
    s!"Backfill {name} cannot advance to {version}: ending version is {ending}"
  | backfillNotStarted name => s!"Backfill {name} was never started"
  | invalidKey reason => "Invalid key: " ++ reason
  | databaseLocked reason => "Database locked: " ++ reason
  | database reason => "Database error: " ++ reason
  | serialization reason => "Serialization error: " ++ reason

/-- Whether going on could damage the ledger. -/
def isFatal : LedgerError → Bool
  | chainMismatch .. | chainNotVerified | layoutMismatch .. | dataCorruption .. => true
  | _ => false

/-- Whether the same call may succeed later. -/
def isRetryable : LedgerError → Bool
  | database _ | databaseLocked _ => true
  | _ => false

/-- A fatal error is never one to retry. -/
theorem isRetryable_eq_false_of_isFatal {e : LedgerError} (h : e.isFatal = true) :
    e.isRetryable = false := by
  cases e with
  | database _ => exact absurd h Bool.false_ne_true
  | databaseLocked _ => exact absurd h Bool.false_ne_true
  | _ => rfl

/-- The error of a call whose store failed. -/
def ofStore (e : StoreError) : LedgerError := .database e.message

end LedgerError

end IngestLedger
