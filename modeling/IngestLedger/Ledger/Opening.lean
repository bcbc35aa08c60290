import IngestLedger.Ledger.Basic

/-!
# Opening a ledger and verifying its chain

A ledger is opened over a store by looking at the layout of its keys: an empty store is marked
with the layout of this library, and a store with another layout is refused. Before it writes
anything else, a ledger has to verify its chain: the first chain is recorded, and any other chain
is refused from then on.

Main definitions:

* `Ledger.openOn`: a ledger over a store.
* `Ledger.verifyChain`: record or check the chain.
* `Ledger.reopen`: a new ledger over the same store, as after a restart.
-/

namespace IngestLedger.Ledger

/-- A ledger that has done nothing yet. -/
def fresh (backend : Backend) (counters : Counters) : Ledger where
  backend
  verifiedChain := none
  runs _ := none
  counters
  journal := []

/-- What opening changes: the layout is marked unless it is the expected one. -/
def planLayout (ledger : Ledger) : Except LedgerError (Unit × Changes) := do
  match ← ledger.readRow LayoutRow Key.layoutBytes with
  | some marker =>
    if marker = LayoutRow.current then return ((), .nothing)
    else throw (.layoutMismatch marker.version LayoutRow.current.version)
  | none => return ((), ⟨[(Key.layoutBytes, ← Record.encode LayoutRow.current)], []⟩)

/-- Open a ledger over a store. -/
def openOn (backend : Backend) (counters : Counters) : Except LedgerError Unit × Ledger :=
  let ledger := fresh backend counters
  ledger.transact ledger.planLayout

/-- Open a new ledger over the store of another one, which is first read again from its file. When
that fails, the ledger that is answered is not open. -/
def reopen (ledger : Ledger) : Except LedgerError Unit × Ledger :=
  match ledger.backend.reload with
  | .ok backend => openOn backend ledger.counters
  | .error e => (.error (.ofStore e), fresh ledger.backend ledger.counters)

/-- The chain that is recorded in the store. -/
def chainId (ledger : Ledger) : Except LedgerError (Option ChainId) :=
  match ledger.readRow ChainRow Key.chainBytes with
  | .ok row => .ok (row.map ChainRow.chainId)
  | .error e => .error e

/-- What recording a chain changes. -/
def planChain (chain : ChainId) : Except LedgerError (Unit × Changes) := do
  let value ← Record.encode (ChainRow.mk chain)
  return ((), ⟨[(Key.chainBytes, value)], [.chainChecked .initialized]⟩)

/-- Record a chain in a store without one, or check it against the recorded one. -/
def verifyChain (ledger : Ledger) (chain : ChainId) : Except LedgerError Unit × Ledger :=
  match ledger.chainId with
  | .error e => (.error e, ledger)
  | .ok (some stored) =>
    if stored = chain then
      (.ok (), { ledger with
        verifiedChain := some chain
        counters := ledger.counters.add [.chainChecked .verified] })
    else
      (.error (.chainMismatch stored chain),
        { ledger with counters := ledger.counters.add [.chainChecked .mismatch] })
  | .ok none =>
    match ledger.transact (planChain chain) with
    | (.ok (), after) => (.ok (), { after with verifiedChain := some chain })
    | (.error e, after) => (.error e, after)

end IngestLedger.Ledger
