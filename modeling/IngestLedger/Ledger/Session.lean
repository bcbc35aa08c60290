import IngestLedger.Ledger.Call

/-!
# Sessions

A session is the life of a ledger over one store, through restarts and through failures of the
store. A ledger that could not be opened does nothing until it is opened again. A history is a
list of steps: calls, each made at a time, calls of the store that begin to fail or to work again,
and restarts.

Main definitions:

* `Session`: a ledger, open or not.
* `Step`, `Session.step`, `Session.run`: histories.
-/

namespace IngestLedger

/-- A ledger, and whether it is open. -/
structure Session where
  ledger : Ledger
  isOpen : Bool

/-- A change of what happens around a ledger, or a call. -/
inductive Step where
  /-- A call, and the time at which it is made. -/
  | call (now : Timestamp) (call : Call)
  /-- From now on these calls of the store fail. -/
  | disturb (faults : Faults)
  /-- The process ends and another one opens the store. -/
  | restart
  deriving DecidableEq, Repr

namespace Session

/-- The session that an attempt to open a ledger leads to. -/
def ofOpening (result : Except LedgerError Unit × Ledger) : Except LedgerError Unit × Session :=
  (result.1, ⟨result.2, result.1.isOk⟩)

/-- Open a ledger over a store. -/
def start (backend : Backend) (counters : Counters) : Except LedgerError Unit × Session :=
  ofOpening (Ledger.openOn backend counters)

/-- The process ends and another one opens the store. -/
def restart (session : Session) : Except LedgerError Unit × Session :=
  ofOpening session.ledger.reopen

/-- Let the given calls of the store fail from now on. -/
def disturb (session : Session) (faults : Faults) : Session :=
  let ledger := session.ledger
  { session with ledger := { ledger with backend := { ledger.backend with faults } } }

/-- Perform a call at a time; a ledger that is not open gives no answer. -/
def perform (session : Session) (now : Timestamp) (call : Call) :
    Option (Except LedgerError Answer) × Session :=
  if session.isOpen then
    let (answer, ledger) := session.ledger.perform now call
    (some answer, { session with ledger })
  else (none, session)

/-- The session after one step. -/
def step (session : Session) : Step → Session
  | .call now call => (session.perform now call).2
  | .disturb faults => session.disturb faults
  | .restart => session.restart.2

/-- The session after a history. -/
def run (session : Session) (steps : List Step) : Session := steps.foldl step session

@[simp] theorem run_nil (session : Session) : session.run [] = session := rfl

@[simp] theorem run_cons (session : Session) (s : Step) (steps : List Step) :
    session.run (s :: steps) = (session.step s).run steps := rfl

theorem run_append (session : Session) (before after : List Step) :
    session.run (before ++ after) = (session.run before).run after := List.foldl_append

/-- A session that is not open stays as it is through calls. -/
theorem perform_of_not_open {session : Session} (h : session.isOpen = false) (now : Timestamp)
    (call : Call) : session.perform now call = (none, session) := by
  simp [perform, h]

end Session

end IngestLedger
