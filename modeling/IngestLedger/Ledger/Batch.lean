import IngestLedger.Ledger.Backfill
import IngestLedger.Ledger.Links
import IngestLedger.RunMode

/-!
# Ranges and batches by run mode

The mode of a run decides where its range comes from and which progress row its batches move. A
batch is committed as one write: the progress row of the mode and the rows of its identity events.

Main definitions:

* `Ledger.resolveRange`: the versions that a run has to process.
* `Ledger.commitBatch`: commit a batch.
-/

namespace IngestLedger

/-- What a committed batch has done to the progress row of its mode. -/
inductive CheckpointOutcome where
  | advanced
  | stale
  /-- The mode keeps no progress. -/
  | skipped
  deriving DecidableEq, Repr

/-- The outcome for a batch of moving a row. -/
def AdvanceOutcome.forBatch : AdvanceOutcome → CheckpointOutcome
  | .advanced => .advanced
  | .stale => .stale

/-- What a committed batch has done. -/
structure BatchOutcome where
  checkpoint : CheckpointOutcome
  events : ApplyTally
  deriving DecidableEq, Repr

namespace Ledger

/-- The versions that a run of a processor has to process. A backfill is started by this. -/
def resolveRange (ledger : Ledger) (now : Timestamp) (processor : String) :
    RunMode → Except LedgerError VersionRange × Ledger
  | .live initial =>
    match ledger.resumeVersion processor initial with
    | .ok first => (.ok (.onward first), ledger)
    | .error e => (.error e, ledger)
  | .backfill id initial ending overwrite =>
    match ledger.startOrResume now (backfillAlias processor id) ⟨initial, ending, overwrite⟩ with
    | (.ok plan, after) => (.ok plan.range, after)
    | (.error e, after) => (.error e, after)
  | .testing start ending => (.ok (.between start (ending.getD start)), ledger)

/-- What the end of a batch changes in the progress row of its mode. -/
def planCheckpoint (ledger : Ledger) (now : Timestamp) (processor : String) (batch : BatchInfo) :
    RunMode → Except LedgerError (CheckpointOutcome × Changes)
  | .live _ => do
    let (outcome, changes) ← ledger.planAdvance now processor batch.last batch.timestamp
    return (outcome.forBatch, changes)
  | .backfill id .. => do
    let (outcome, changes) ←
      ledger.planBackfillAdvance now (backfillAlias processor id) batch.last batch.timestamp
    return (outcome.forBatch, changes)
  | .testing .. => .ok (.skipped, .nothing)

/-- What committing a batch changes: the progress row of the mode, and the rows of its events. -/
def planBatch (ledger : Ledger) (now : Timestamp) (processor : String) (mode : RunMode)
    (batch : BatchInfo) (events : List IdentityEvent) :
    Except LedgerError (BatchOutcome × Changes) := do
  let (checkpoint, changes) ← ledger.planCheckpoint now processor batch mode
  let (tally, rest) ← ledger.planEvents (coalesce events)
  return (⟨checkpoint, tally⟩, changes ++ rest)

/-- Commit a batch. -/
def commitBatch (ledger : Ledger) (now : Timestamp) (processor : String) (mode : RunMode)
    (batch : BatchInfo) (events : List IdentityEvent) : Except LedgerError BatchOutcome × Ledger :=
  ledger.transact do
    let _ ← ledger.ensureVerified
    ledger.planBatch now processor mode batch events

end Ledger

end IngestLedger
