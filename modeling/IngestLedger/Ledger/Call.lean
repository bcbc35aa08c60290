import IngestLedger.Ledger.Batch
import IngestLedger.Ledger.Opening

/-!
# Calls

A call is an operation that may change a ledger, with its arguments; performing it gives an answer
or an error, and the ledger afterwards.

Main definitions:

* `Call`, `Answer`: the operations and what they answer.
* `Ledger.perform`: perform a call.
-/

namespace IngestLedger

/-- An operation that may change a ledger. -/
inductive Call where
  | verifyChain (chain : ChainId)
  | advance (processor : String) (version : Version) (time : Option Timestamp)
  | startOrResume (name : String) (run : BackfillRun)
  | advanceBackfill (name : String) (version : Version) (time : Option Timestamp)
  | apply (event : IdentityEvent)
  | resolveRange (processor : String) (mode : RunMode)
  | commitBatch (processor : String) (mode : RunMode) (batch : BatchInfo)
      (events : List IdentityEvent)
  deriving DecidableEq, Repr

/-- What an operation answers. -/
inductive Answer where
  | done
  | advance (outcome : AdvanceOutcome)
  | plan (plan : BackfillPlan)
  | apply (outcome : ApplyOutcome)
  | range (range : VersionRange)
  | batch (outcome : BatchOutcome)
  deriving DecidableEq, Repr

namespace Ledger

/-- Give the answer of an operation as an answer of a call. -/
def answering {α : Type} (answer : α → Answer) (result : Except LedgerError α × Ledger) :
    Except LedgerError Answer × Ledger :=
  (result.1.map answer, result.2)

/-- Perform a call at a time. -/
def perform (ledger : Ledger) (now : Timestamp) : Call → Except LedgerError Answer × Ledger
  | .verifyChain chain => answering (fun _ => .done) (ledger.verifyChain chain)
  | .advance processor version time =>
    answering .advance (ledger.advance now processor version time)
  | .startOrResume name run => answering .plan (ledger.startOrResume now name run)
  | .advanceBackfill name version time =>
    answering .advance (ledger.advanceBackfill now name version time)
  | .apply event => answering .apply (ledger.apply event)
  | .resolveRange processor mode => answering .range (ledger.resolveRange now processor mode)
  | .commitBatch processor mode batch events =>
    answering .batch (ledger.commitBatch now processor mode batch events)

end Ledger

end IngestLedger
