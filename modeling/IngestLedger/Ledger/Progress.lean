import IngestLedger.Ledger.Basic

/-!
# Progress of live runs

Each processor has one row with the last version that it has processed. The row only moves
forward: a version that is not greater than the stored one is passed over as stale.

Main definitions:

* `Ledger.resumeVersion`: where a live run starts.
* `Ledger.advance`: move the row of a processor.
-/

namespace IngestLedger

/-- What moving a progress row has done. -/
inductive AdvanceOutcome where
  | advanced
  | stale
  deriving DecidableEq, Repr

namespace Ledger

/-- The progress of a processor. -/
def checkpoint (ledger : Ledger) (processor : String) : Except LedgerError (Option ProcessorRow) :=
  ledger.fetch ProcessorRow (.processor processor)

/-- The version that a live run starts from: the one after the last, or `initial` without any. -/
def resumeVersion (ledger : Ledger) (processor : String) (initial : Version) :
    Except LedgerError Version :=
  match ledger.checkpoint processor with
  | .ok (some row) => .ok row.resume
  | .ok none => .ok initial
  | .error e => .error e

/-- What moving the row of a processor at the time `now` changes. -/
def planAdvance (ledger : Ledger) (now : Timestamp) (processor : String) (version : Version)
    (time : Option Timestamp) : Except LedgerError (AdvanceOutcome × Changes) := do
  let key ← keyBytes (.processor processor)
  let stored ← ledger.readRow ProcessorRow key
  if stored.any fun row => version ≤ row.lastVersion then
    return (.stale, .count (.staleIgnored .processors))
  else
    let value ← Record.encode (ProcessorRow.mk processor version now time)
    return (.advanced, ⟨[(key, value)], [.advanced .live]⟩)

/-- Move the row of a processor. -/
def advance (ledger : Ledger) (now : Timestamp) (processor : String) (version : Version)
    (time : Option Timestamp) : Except LedgerError AdvanceOutcome × Ledger :=
  ledger.transact do
    let _ ← ledger.ensureVerified
    ledger.planAdvance now processor version time

end Ledger

end IngestLedger
