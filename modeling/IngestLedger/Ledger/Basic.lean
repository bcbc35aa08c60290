import IngestLedger.Counters
import IngestLedger.Row.Record
import IngestLedger.Store.Backend

/-!
# The ledger

A ledger stands over a store. In memory it holds the chain that it has verified, the backfills
that were started in it, what it has counted and the batches that it has written. A change of the
store is planned as one batch first and then written as a whole; what is to be counted is counted
when the batch has been written.

Main definitions:

* `Ledger`: the state.
* `Ledger.fetch`: the row of a key.
* `Changes`: the entries to write and what to count for them.
* `Ledger.carryOut`: write changes; `Ledger.transact`: write the changes that were planned.
-/

namespace IngestLedger

/-- A backfill that was started: the settings it was started with. -/
structure BackfillRun where
  initial : Version
  ending : Option Version
  overwrite : Bool
  deriving DecidableEq, Repr

/-- A ledger over a store. -/
structure Ledger where
  backend : Backend
  /-- The chain that was verified to be the one of the store. -/
  verifiedChain : Option ChainId
  /-- The backfills that were started, by their alias. -/
  runs : String → Option BackfillRun
  counters : Counters
  /-- The batches that were written, in order. -/
  journal : List (List Entry)

/-- The entries to write as one batch, and what to count once they are written. -/
structure Changes where
  entries : List Entry
  counted : List Counter
  deriving DecidableEq

namespace Changes

/-- Nothing to write and nothing to count. -/
def nothing : Changes := ⟨[], []⟩

/-- Nothing to write and one thing to count. -/
def count (counter : Counter) : Changes := ⟨[], [counter]⟩

/-- Some changes after others. -/
def append (c d : Changes) : Changes := ⟨c.entries ++ d.entries, c.counted ++ d.counted⟩

instance : Append Changes := ⟨append⟩

@[simp] theorem entries_append (c d : Changes) : (c ++ d).entries = c.entries ++ d.entries := rfl

@[simp] theorem counted_append (c d : Changes) : (c ++ d).counted = c.counted ++ d.counted := rfl

end Changes

namespace Ledger

/-- The contents of the store. -/
def contents (ledger : Ledger) : Store := ledger.backend.contents

/-- The key of a row in the store. -/
def keyBytes (key : Key) : Except LedgerError Bytes :=
  match key.bytes with
  | .ok bytes => .ok bytes
  | .error fault => .error (.invalidKey fault.message)

/-- What the keys of a family begin with. -/
def familyBytes (family : Family) : Except LedgerError Bytes :=
  match family.bytes with
  | .ok bytes => .ok bytes
  | .error fault => .error (.invalidKey fault.message)

/-- The row that is stored under a key. -/
def readRow (α : Type) [Row α] (ledger : Ledger) (key : Bytes) : Except LedgerError (Option α) :=
  match ledger.backend.get key with
  | .error e => .error (.ofStore e)
  | .ok none => .ok none
  | .ok (some value) =>
    match Record.decode key value with
    | .error e => .error e
    | .ok row => .ok (some row)

/-- The row that a key names. -/
def fetch (α : Type) [Row α] (ledger : Ledger) (key : Key) : Except LedgerError (Option α) := do
  ledger.readRow α (← keyBytes key)

/-- The rows of a list of entries. -/
def decodeEntries (α : Type) [Row α] : List Entry → Except LedgerError (List α)
  | [] => .ok []
  | (key, value) :: entries => do
    let row ← Record.decode key value
    let rows ← decodeEntries α entries
    return row :: rows

/-- The entries of a family, with what their keys begin with. -/
def scanFamily (ledger : Ledger) (family : Family) :
    Except LedgerError (Bytes × List Entry) := do
  let front ← familyBytes family
  match ledger.backend.scan front with
  | .ok entries => .ok (front, entries)
  | .error e => .error (.ofStore e)

/-- The rows of a family, in the order of their keys. -/
def fetchAll (α : Type) [Row α] (ledger : Ledger) (family : Family) :
    Except LedgerError (List α) := do
  let (_, entries) ← ledger.scanFamily family
  decodeEntries α entries

/-- The chain that was verified; nothing is written before one is. -/
def ensureVerified (ledger : Ledger) : Except LedgerError ChainId :=
  match ledger.verifiedChain with
  | some chain => .ok chain
  | none => .error .chainNotVerified

/-- Write changes as one batch, if there is anything to write, and then count what they count. A
batch that cannot be written changes nothing that the ledger holds, and counts nothing. -/
def carryOut (ledger : Ledger) (changes : Changes) : Except LedgerError Unit × Ledger :=
  if changes.entries.isEmpty then
    (.ok (), { ledger with counters := ledger.counters.add changes.counted })
  else
    match ledger.backend.write changes.entries with
    | (.ok (), backend) =>
      (.ok (), { ledger with
        backend
        counters := ledger.counters.add changes.counted
        journal := ledger.journal ++ [changes.entries] })
    | (.error e, backend) => (.error (.ofStore e), { ledger with backend })

/-- Write the changes that were planned, and give the answer that was planned with them. -/
def transact {α : Type} (ledger : Ledger) (planned : Except LedgerError (α × Changes)) :
    Except LedgerError α × Ledger :=
  match planned with
  | .error e => (.error e, ledger)
  | .ok (answer, changes) =>
    match ledger.carryOut changes with
    | (.ok (), after) => (.ok answer, after)
    | (.error e, after) => (.error e, after)

end Ledger

end IngestLedger
