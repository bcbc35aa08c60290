import IngestLedger.Ledger.Progress

/-!
# Backfills

A backfill processes a stretch of versions again under an alias of its own and keeps its progress
in a row of its own. Starting one answers where it begins and where it ends, and remembers its
settings; without them, a backfill goes by the settings in its row. A backfill never goes beyond
its ending version, and is complete when it has reached it.

Main definitions:

* `BackfillPlan`: where a backfill begins and ends.
* `Ledger.startOrResume`: start a backfill, from its progress or from the beginning.
* `Ledger.advanceBackfill`: move the row of a backfill.
-/

namespace IngestLedger

/-- Where a backfill begins and ends; `resumed` tells that it begins after earlier progress. -/
structure BackfillPlan where
  name : String
  start : Version
  ending : Option Version
  resumed : Bool
  deriving DecidableEq, Repr

namespace BackfillPlan

/-- The versions to process. -/
def range (plan : BackfillPlan) : VersionRange := ⟨plan.start, plan.ending⟩

/-- Whether nothing is left to process. -/
def isFinished (plan : BackfillPlan) : Bool :=
  match plan.ending with
  | some ending => plan.start > ending
  | none => false

/-- A plan is finished exactly when it gives out no version. -/
theorem isFinished_iff_contains (plan : BackfillPlan) :
    plan.isFinished = true ↔ ∀ version, plan.range.contains version = false :=
  plan.range.isExhausted_iff

end BackfillPlan

namespace Ledger

/-- The progress of a backfill. -/
def backfill (ledger : Ledger) (name : String) : Except LedgerError (Option BackfillRow) :=
  ledger.fetch BackfillRow (.backfill name)

/-- Remember the settings of a backfill that was started. -/
def register (ledger : Ledger) (name : String) (run : BackfillRun) : Ledger :=
  { ledger with runs := fun a => if a = name then some run else ledger.runs a }

/-- The row of a backfill that begins without progress. -/
def newBackfillRow (now : Timestamp) (name : String) (run : BackfillRun) : BackfillRow where
  name
  status := .inProgress
  lastVersion := none
  updatedAt := now
  transactionTime := none
  startVersion := run.initial
  endingVersion := run.ending
  overwrite := run.overwrite

/-- What starting a backfill changes: with `overwrite` its row begins anew, otherwise nothing does
and it begins after its progress, when that lies beyond the initial version. -/
def planStart (ledger : Ledger) (now : Timestamp) (name : String) (run : BackfillRun) :
    Except LedgerError (BackfillPlan × Changes) := do
  let key ← keyBytes (.backfill name)
  let stored ← ledger.readRow BackfillRow key
  if run.overwrite then
    let _ ← ledger.ensureVerified
    let value ← Record.encode (newBackfillRow now name run)
    return (⟨name, run.initial, run.ending, false⟩, ⟨[(key, value)], []⟩)
  else
    match stored.bind BackfillRow.next? with
    | some next =>
      if next > run.initial then return (⟨name, next, run.ending, true⟩, .nothing)
      else return (⟨name, run.initial, run.ending, false⟩, .nothing)
    | none => return (⟨name, run.initial, run.ending, false⟩, .nothing)

/-- Start a backfill. -/
def startOrResume (ledger : Ledger) (now : Timestamp) (name : String) (run : BackfillRun) :
    Except LedgerError BackfillPlan × Ledger :=
  match ledger.transact (ledger.planStart now name run) with
  | (.ok plan, after) => (.ok plan, after.register name run)
  | (.error e, after) => (.error e, after)

/-- The settings of a backfill: those it was started with, or else those in its row. -/
def backfillSettings (ledger : Ledger) (name : String) (stored : Option BackfillRow) :
    Except LedgerError BackfillRun :=
  match ledger.runs name, stored with
  | some run, _ => .ok run
  | none, some row => .ok ⟨row.startVersion, row.endingVersion, row.overwrite⟩
  | none, none => .error (.backfillNotStarted name)

/-- Refuse a version beyond the end of a backfill. -/
def checkEnd (name : String) (version : Version) : Option Version → Except LedgerError Unit
  | some ending =>
    if version > ending then .error (.pastEndingVersion name version ending) else .ok ()
  | none => .ok ()

/-- The row of a backfill that has come to a version. -/
def movedBackfillRow (now : Timestamp) (name : String) (run : BackfillRun) (version : Version)
    (time : Option Timestamp) : BackfillRow where
  name
  status := if run.ending.any fun ending => version ≥ ending then .complete else .inProgress
  lastVersion := some version
  updatedAt := now
  transactionTime := time
  startVersion := run.initial
  endingVersion := run.ending
  overwrite := run.overwrite

/-- What moving the row of a backfill changes. -/
def planBackfillAdvance (ledger : Ledger) (now : Timestamp) (name : String) (version : Version)
    (time : Option Timestamp) : Except LedgerError (AdvanceOutcome × Changes) := do
  let key ← keyBytes (.backfill name)
  let stored ← ledger.readRow BackfillRow key
  let run ← ledger.backfillSettings name stored
  checkEnd name version run.ending
  if (stored.bind BackfillRow.lastVersion).any fun last => version ≤ last then
    return (.stale, .count (.staleIgnored .backfills))
  else
    let row := movedBackfillRow now name run version time
    let value ← Record.encode row
    let completed := row.isComplete && !stored.any BackfillRow.isComplete
    return (.advanced,
      ⟨[(key, value)], .advanced .backfill :: if completed then [.backfillCompleted] else []⟩)

/-- Move the row of a backfill. -/
def advanceBackfill (ledger : Ledger) (now : Timestamp) (name : String) (version : Version)
    (time : Option Timestamp) : Except LedgerError AdvanceOutcome × Ledger :=
  ledger.transact do
    let _ ← ledger.ensureVerified
    ledger.planBackfillAdvance now name version time

end Ledger

end IngestLedger
