import IngestLedger.Ledger.Session
import IngestLedger.Proofs.Calls
import IngestLedger.Proofs.KeptStores

/-!
# Histories over a lasting store

A life of a ledger begins over a store without entries and goes through calls, failures of the
store and restarts. Its store lasts: what a restart reads back is what was there, as it is in
memory, and in a file that has room for the entries. Whatever happens in a life, the identity
tables represent, for each row, an event of the greatest version among those of the calls that were
answered.

Main definitions:

* `Session.delivered`: the identity events of the answered calls of a history.
* `Life`: a history over a lasting store that begins without entries.
* `Life.inMemory`, `Life.inFile`: lives over the two kinds of store.

Main statements:

* `Session.step_preserves`: what is to be shown of a property of stores that holds throughout.
* `Session.writtenWithin_step`: a step writes within its footprint.
* `Life.isWellFormed`: every value that a life has written stands under its key.
* `Session.represents_step`: what one step does to the facts of the store.
* `Life.exists_represents`: the facts at the end of a life.
-/

namespace IngestLedger

namespace Session

/-- The events that a step delivers: those of a call that is answered. -/
def answered (session : Session) : Step → List IdentityEvent
  | .call now call =>
    match (session.perform now call).1 with
    | some result => call.deliveredBy result
    | none => []
  | .disturb _ | .restart => []

/-- The events that a history delivers, in order. -/
def delivered (session : Session) : List Step → List IdentityEvent
  | [] => []
  | step :: steps => session.answered step ++ (session.step step).delivered steps

end Session

namespace Session

/-- Something holds of the store at each restart of a history. -/
def AtRestarts (p : Backend → Prop) (session : Session) : List Step → Prop
  | [] => True
  | step :: steps =>
    (step = .restart → p session.ledger.backend) ∧ (session.step step).AtRestarts p steps

theorem atRestarts_append {p : Backend → Prop} {session : Session} {before after : List Step} :
    session.AtRestarts p (before ++ after) ↔
      session.AtRestarts p before ∧ (session.run before).AtRestarts p after := by
  induction before generalizing session with
  | nil => simp [AtRestarts]
  | cons step before ih => simp only [List.cons_append, AtRestarts, ih, run_cons, and_assoc]

/-- What writes, failures and reading back preserve, a step preserves. -/
theorem step_preserves {p : Backend → Prop} {session : Session} {step : Step}
    (writes : ∀ backend batch, p backend → p (backend.write batch).2)
    (disturbs : ∀ backend faults, p backend → p { backend with faults })
    (reloads : step = .restart → ∀ again, session.ledger.backend.reload = .ok again → p again)
    (h : p session.ledger.backend) : p (session.step step).ledger.backend := by
  cases step with
  | call now call =>
    simp only [Session.step, perform]
    split
    · exact Ledger.perform_preserves writes h now call
    · exact h
  | disturb faults => exact disturbs _ faults h
  | restart =>
    simp only [Session.step, restart, ofOpening, Ledger.reopen]
    split
    · rename_i again read
      exact Ledger.transact_preserves writes (reloads rfl again read) _
    · exact h

/-- A store that no file keeps lasts through every history. -/
theorem lasting_of_home_none {session : Session} {steps : List Step}
    (memory : session.ledger.backend.home = none) : session.AtRestarts Backend.Lasts steps := by
  induction steps generalizing session with
  | nil => trivial
  | cons step steps ih =>
    refine ⟨fun _ => Backend.lasts_of_home_none memory, ih ?_⟩
    refine step_preserves (p := fun backend => backend.home = none) ?_ ?_ ?_ memory
    · exact fun backend batch h => (Backend.home_faults_of_write backend batch).1.trans h
    · exact fun backend faults h => h
    · intro _ again read
      simp only [Backend.reload, memory] at read
      exact Except.ok.inj read ▸ memory

/-- A kept store lasts through a history at whose restarts its file has room for its entries. -/
theorem lasting_of_isKept {session : Session} {steps : List Step}
    (kept : session.ledger.backend.IsKept)
    (short : session.AtRestarts (fun backend => ∀ e ∈ backend.contents.entries, e.IsShort) steps) :
    session.AtRestarts Backend.Lasts steps := by
  induction steps generalizing session with
  | nil => trivial
  | cons step steps ih =>
    obtain ⟨here, later⟩ := short
    have lasts : step = .restart → session.ledger.backend.Lasts := fun restart =>
      kept.lasts (here restart)
    refine ⟨lasts, ih ?_ later⟩
    exact step_preserves (fun _ batch h => h.write batch) (fun _ _ h => h)
      (fun restart _ read => (lasts restart).reload_eq read ▸ kept) kept

end Session

/-- The life of a ledger over a store that begins without entries and lasts. -/
structure Life where
  backend : Backend
  counters : Counters
  steps : List Step
  fresh : backend.contents = .empty
  lasting : (Session.start backend counters).2.AtRestarts Backend.Lasts steps

namespace Life

/-- A life over a store in memory. -/
def inMemory (steps : List Step) : Life where
  backend := .inMemory
  counters := .zero
  steps
  fresh := rfl
  lasting := Session.lasting_of_home_none (Ledger.sameAround_transact _ _).home

/-- A life over a store that is opened in a directory of a disk without files; the file of the store
has to have room for its entries. -/
def inFile {disk : Disk} {home : Path} {backend : Backend}
    (bare : ∀ n ∈ disk.nodes, n.2 = .directory) (opened : Backend.openFile disk home = .ok backend)
    (steps : List Step) (short : (Session.start backend .zero).2.AtRestarts
      (fun backend => ∀ e ∈ backend.contents.entries, e.IsShort) steps) : Life where
  backend
  counters := .zero
  steps
  fresh := (Backend.isKept_of_openFile bare opened).1
  lasting := by
    refine Session.lasting_of_isKept ?_ short
    exact Ledger.transact_preserves (fun _ batch h => h.write batch)
      (Backend.isKept_of_openFile bare opened).2 _

/-- The session in which a life begins. -/
def first (life : Life) : Session := (Session.start life.backend life.counters).2

/-- The session at the end of a life. -/
def session (life : Life) : Session := life.first.run life.steps

/-- The ledger at the end of a life. -/
def ledger (life : Life) : Ledger := life.session.ledger

/-- The events that were delivered in a life. -/
def delivered (life : Life) : List IdentityEvent := life.first.delivered life.steps

end Life

/-- The keys that a step may write under. -/
def Step.footprint : Step → List Key
  | .call _ made => made.footprint
  | .disturb _ => []
  | .restart => [.layout]

namespace Session

variable {session : Session} {facts : Facts}

/-- A step of a store that lasts writes within its footprint. -/
theorem writtenWithin_step (session : Session) (step : Step)
    (lasts : step = .restart → session.ledger.backend.Lasts) :
    session.ledger.contents.WrittenWithin step.footprint
      (session.step step).ledger.contents := by
  cases step with
  | call now call =>
    simp only [Session.step, perform]
    split
    · exact Ledger.writtenWithin_perform session.ledger now call
    · exact .refl _ _
  | disturb faults => exact .refl _ _
  | restart =>
    simp only [Session.step, restart, ofOpening, Ledger.reopen]
    split
    · rename_i again read
      have same : again.contents = session.ledger.contents := lasts rfl again read
      rw [← same]
      exact Ledger.writtenWithin_openOn again _
    · exact .refl _ _

theorem isWellFormed_run (h : session.ledger.contents.IsWellFormed) {steps : List Step}
    (lasting : session.AtRestarts Backend.Lasts steps) :
    (session.run steps).ledger.contents.IsWellFormed := by
  induction steps generalizing session with
  | nil => exact h
  | cons step steps ih =>
    obtain ⟨lasts, rest⟩ := lasting
    exact ih ((writtenWithin_step session step lasts).isWellFormed h) rest

/-- What one step does to the facts of a store that lasts. -/
theorem represents_step (h : session.ledger.contents.Represents facts) (step : Step)
    (lasts : step = .restart → session.ledger.backend.Lasts) :
    (session.step step).ledger.contents.Represents
      (facts.supersedeAll (coalesce (session.answered step))) := by
  cases step with
  | call now call =>
    have performed := Ledger.represents_perform h now call
    simp only [Session.step, answered, perform]
    split
    · exact performed
    · exact h
  | disturb faults => exact h
  | restart =>
    simp only [Session.step, restart, ofOpening, answered, Ledger.reopen]
    split
    · rename_i again read
      have opened : again.contents.Represents facts := by
        rw [lasts rfl again read]
        exact h
      exact Ledger.represents_openOn opened _
    · exact h

/-- After a history the store represents, for each row, an event of the greatest version among
those that were delivered before it and in it. -/
theorem exists_represents_run (h : session.ledger.contents.Represents facts)
    {history : List IdentityEvent} (newest : IsNewest history facts) {steps : List Step}
    (lasting : session.AtRestarts Backend.Lasts steps) :
    ∃ facts', (session.run steps).ledger.contents.Represents facts' ∧
      IsNewest (history ++ session.delivered steps) facts' := by
  -- the invariant: the store represents facts that are the newest of what was delivered so far
  induction steps generalizing session facts history with
  | nil => exact ⟨facts, h, by rwa [delivered, List.append_nil]⟩
  | cons step steps ih =>
    obtain ⟨lasts, rest⟩ := lasting
    rw [run_cons, delivered, ← List.append_assoc]
    exact ih (represents_step h step lasts) newest.supersedeAll rest

end Session

theorem Life.isWellFormed_first (life : Life) : life.first.ledger.contents.IsWellFormed := by
  refine (Ledger.writtenWithin_openOn life.backend life.counters).isWellFormed ?_
  rw [life.fresh]
  exact Store.isWellFormed_empty

/-- A life begins with no facts. -/
theorem Life.represents_first (life : Life) :
    life.first.ledger.contents.Represents fun _ => none := by
  refine Ledger.represents_openOn ?_ life.counters
  rw [life.fresh]
  exact Store.represents_empty

/-- In every life, what stands under the key of a row belongs there. -/
theorem Life.isWellFormed (life : Life) : life.ledger.contents.IsWellFormed :=
  Session.isWellFormed_run life.isWellFormed_first life.lasting

/-- The facts of the store at the end of a life: for each row, an event of the greatest version
among those that were delivered. -/
theorem Life.exists_represents (life : Life) :
    ∃ facts, life.ledger.contents.Represents facts ∧ IsNewest life.delivered facts :=
  Session.exists_represents_run life.represents_first isNewest_nil life.lasting

/-- What a row holds was delivered. -/
theorem Life.mem_delivered_of_holds {life : Life} {event : IdentityEvent}
    (h : life.ledger.contents.Holds event) : event ∈ life.delivered := by
  obtain ⟨facts, represents, newest⟩ := life.exists_represents
  have fact := represents.holds_iff.1 h
  rcases newest event.key with ⟨free, -⟩ | ⟨held, member, holds, -⟩
  · rw [free] at fact
    cases fact
  · rw [holds] at fact
    exact Option.some.inj fact ▸ member

end IngestLedger
