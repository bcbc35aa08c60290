import IngestLedger.Proofs.Failures
import IngestLedger.Proofs.Jobs

/-!
# Ingestion that goes on where it stopped

A job asks for its range and commits batches that follow on one another in it. It may stop, lose its
process or fail to commit at any point, and then asks for its range again. Other calls happen in
between, as long as they leave the row of the job alone. Whatever happens, the batches that were
committed follow on one another without a gap and without an overlap, from the initial version to
the last one in the row.

Main definitions:

* `Ingestion`, `Job.act`: a job at work, and what happens to it.
* `Job.Allows`: what a job and those around it may do.
* `Job.IsAt`: the invariant of a job at work.

Main statements:

* `Job.isAt_act`, `Job.isAt_run`: what one action preserves, and what all of them do.
* `Job.ingestion_covers`: what was committed after any run.
-/

namespace IngestLedger

/-! ### Jobs at work -/

/-- A job at work: what is left of the range it was given, if it was given one, and the batches
that it has committed, with what they were answered. -/
structure Ingestion where
  session : Session
  remaining : Option VersionRange
  committed : List (BatchInfo × CheckpointOutcome)

namespace Ingestion

/-- A job before its first call. -/
def start (session : Session) : Ingestion := ⟨session, none, []⟩

/-- What happens to a job. -/
inductive Action where
  /-- It asks for its range. -/
  | resolve (now : Timestamp)
  /-- It commits a batch. -/
  | commit (now : Timestamp) (batch : BatchInfo) (events : List IdentityEvent)
  /-- Something else happens: a call, a failure of the store or a restart. -/
  | other (step : Step)

end Ingestion

namespace Job

open Ingestion (Action)

/-- The step of a history that an action is. -/
def step (job : Job) : Action → Step
  | .resolve now => .call now (.resolveRange job.processor job.mode)
  | .commit now batch events => .call now (.commitBatch job.processor job.mode batch events)
  | .other step => step

/-- A job after an action: a range that is given replaces the one before, a batch that is committed
is taken off the range, and a restart loses it. -/
def act (job : Job) (state : Ingestion) : Action → Ingestion
  | .resolve now =>
    let (answer, session) := state.session.perform now (.resolveRange job.processor job.mode)
    match answer with
    | some (.ok (.range range)) => { state with session, remaining := some range }
    | _ => { state with session, remaining := none }
  | .commit now batch events =>
    let (answer, session) :=
      state.session.perform now (.commitBatch job.processor job.mode batch events)
    match answer with
    | some (.ok (.batch outcome)) =>
      { session
        remaining := state.remaining.map fun range => { range with first := batch.last + 1 }
        committed := state.committed ++ [(batch, outcome.checkpoint)] }
    | _ => { state with session }
  | .other step =>
    { state with
      session := state.session.step step
      remaining := if step = .restart then none else state.remaining }

/-- A job after several actions. -/
def run (job : Job) (state : Ingestion) (actions : List Action) : Ingestion :=
  actions.foldl job.act state

/-- What may happen: the job asks for its range at any time and commits batches that begin where
the rest of its range does and lie in it; other calls leave its row as it is, whatever else they do
and whether they are answered or not. -/
def Allows (job : Job) (state : Ingestion) : Action → Prop
  | .resolve _ => True
  | .commit _ batch _ =>
    ∃ range ∈ state.remaining, batch.first = range.first ∧ batch.first ≤ batch.last ∧
      range.contains batch.last = true ∧ batch.last < Version.greatest
  | .other (.call now call) =>
    (state.session.step (.call now call)).ledger.contents.value? job.key =
      state.session.ledger.contents.value? job.key
  | .other _ => True

/-- Each of several actions may happen when its turn comes. -/
def AllowsAll (job : Job) (state : Ingestion) : List Action → Prop
  | [] => True
  | action :: actions => job.Allows state action ∧ job.AllowsAll (job.act state action) actions

instance (job : Job) (state : Ingestion) : (action : Action) → Decidable (job.Allows state action)
  | .resolve _ | .other (.disturb _) | .other .restart => inferInstanceAs (Decidable True)
  | .commit _ batch _ =>
    inferInstanceAs (Decidable (∃ range ∈ state.remaining, batch.first = range.first ∧ _))
  | .other (.call now call) =>
    inferInstanceAs (Decidable
      ((state.session.step (.call now call)).ledger.contents.value? job.key = _))

instance decidableAllowsAll (job : Job) :
    (actions : List Action) → (state : Ingestion) → Decidable (job.AllowsAll state actions)
  | [], _ => inferInstanceAs (Decidable True)
  | _ :: actions, state =>
    have := decidableAllowsAll job actions
    inferInstanceAs (Decidable (_ ∧ job.AllowsAll (job.act state _) actions))

/-- A call whose footprint does not hold the row of a job may happen at any time. -/
theorem allows_call_of_notMem {job : Job} {state : Ingestion} {now : Timestamp} {call : Call}
    (outside : job.key ∉ call.footprint) : job.Allows state (.other (.call now call)) :=
  (Session.writtenWithin_step state.session (.call now call) nofun).value?_eq outside

theorem session_act (job : Job) (state : Ingestion) (action : Action) :
    (job.act state action).session = state.session.step (job.step action) := by
  cases action with
  | resolve now =>
    simp only [act, step, Session.step]
    split <;> rfl
  | commit now batch events =>
    simp only [act, step, Session.step]
    split <;> rfl
  | other step => rfl

/-- A job at work has processed the versions from its initial one up to the one before `next`, and
has to go on there. -/
structure IsAt (job : Job) (next : Version) (state : Ingestion) : Prop where
  advanced : ∀ entry ∈ state.committed, entry.2 = .advanced
  consecutive : Consecutive job.initial (state.committed.map Prod.fst) next
  row : (state.session.ledger.contents.value? job.key = none ∧ state.committed = []) ∨
    ∃ last, job.lastVersion? state.session.ledger.contents = some last ∧
      last < Version.greatest ∧ next = last + 1
  remaining : ∀ range ∈ state.remaining, range.first = next

namespace IsAt

variable {job : Job} {next : Version} {state : Ingestion}

theorem start {session : Session} (free : session.ledger.contents.value? job.key = none) :
    job.IsAt job.initial (.start session) where
  advanced := nofun
  consecutive := .nil
  row := .inl ⟨free, rfl⟩
  remaining := nofun

theorem goesOnAt (h : job.IsAt next state) :
    job.GoesOnAt state.session.ledger.contents next := by
  rcases h.row with ⟨free, none⟩ | progress
  · have begins : next = job.initial := h.consecutive.next_eq_of_nil (by rw [none]; rfl)
    exact .inl ⟨lastVersion?_of_value?_none free, begins⟩
  · exact .inr progress

/-- What leaves the row of a job alone leaves the job where it is. -/
theorem of_value?_eq (h : job.IsAt next state) {session : Session}
    (same : session.ledger.contents.value? job.key =
      state.session.ledger.contents.value? job.key)
    {remaining : Option VersionRange} (begins : ∀ range ∈ remaining, range.first = next) :
    job.IsAt next ⟨session, remaining, state.committed⟩ where
  advanced := h.advanced
  consecutive := h.consecutive
  row := by
    rw [same, lastVersion?_eq, same, ← lastVersion?_eq]
    exact h.row
  remaining := begins

/-- Asking for a range writes nothing, and the range begins where the job has to go on. -/
theorem resolve (h : job.IsAt next state) (now : Timestamp) :
    job.IsAt next (job.act state (.resolve now)) := by
  have same : (job.act state (.resolve now)).session.ledger.contents.value? job.key =
      state.session.ledger.contents.value? job.key := by
    have written := Session.writtenWithin_step state.session (job.step (.resolve now)) nofun
    rw [session_act]
    refine written.value?_eq ?_
    show job.key ∉ job.mode.startKeys job.processor
    rw [startKeys_eq_nil]
    exact List.not_mem_nil
  cases performed : state.session.perform now (.resolveRange job.processor job.mode) with
  | mk answer session =>
    simp only [Job.act, performed] at same ⊢
    split at same
    · rename_i range
      refine h.of_value?_eq same fun other here => ?_
      obtain rfl := Option.some.inj here
      obtain ⟨given, answered, kind⟩ := Ledger.answering_eq_ok (Session.perform_ok performed)
      rw [Answer.range.inj kind]
      exact first_of_resolveRange h.goesOnAt h.consecutive.le answered
    · exact h.of_value?_eq same nofun

/-- A batch that is committed was still to be processed, and the job goes on after it; one that is
not committed leaves the job where it is. -/
theorem commit (h : job.IsAt next state) {now : Timestamp} {batch : BatchInfo}
    {events : List IdentityEvent} (allowed : job.Allows state (.commit now batch events)) :
    ∃ next', job.IsAt next' (job.act state (.commit now batch events)) := by
  obtain ⟨range, here, first, ordered, -, below⟩ := allowed
  have follows : batch.first = next := first.trans (h.remaining range here)
  have beyond : ∀ last, job.lastVersion? state.session.ledger.contents = some last →
      last < batch.last := by
    intro last found
    rcases h.goesOnAt with ⟨none, -⟩ | ⟨last', found', below', rfl⟩
    · rw [none] at found
      cases found
    · obtain rfl := Option.some.inj (found.symm.trans found')
      have less : last < last + 1 := (Version.lt_succ_iff below').2 (UInt64.le_refl last)
      exact UInt64.lt_of_lt_of_le less (follows ▸ ordered)
  cases performed : state.session.perform now
      (.commitBatch job.processor job.mode batch events) with
  | mk answer session =>
    simp only [Job.act, performed]
    split
    · rename_i outcome
      obtain ⟨given, answered, kind⟩ := Ledger.answering_eq_ok (Session.perform_ok performed)
      obtain ⟨advanced, moved⟩ := commitBatch_ok beyond answered
      refine ⟨batch.last + 1, ?_, ?_, .inr ⟨batch.last, moved, below, rfl⟩, ?_⟩
      · intro entry member
        rcases List.mem_append.1 member with earlier | here
        · exact h.advanced entry earlier
        · obtain rfl := List.mem_singleton.1 here
          rw [Answer.batch.inj kind]
          exact advanced
      · rw [List.map_append]
        exact h.consecutive.snoc follows ordered below
      · intro rest inside
        obtain ⟨range', -, rfl⟩ := Option.map_eq_some_iff.1 inside
        rfl
    · rename_i otherwise
      have refused : ∀ given, answer ≠ some (.ok given) := by
        rintro given rfl
        obtain ⟨outcome, -, rfl⟩ := Ledger.answering_eq_ok (Session.perform_ok performed)
        exact otherwise outcome rfl
      have same : session.ledger.contents = state.session.ledger.contents :=
        Session.contents_of_perform performed refused
      exact ⟨next, h.of_value?_eq (congrArg (fun store => store.value? job.key) same) h.remaining⟩

/-- What else happens leaves the row of the job alone. -/
theorem other (h : job.IsAt next state) {step : Step} (allowed : job.Allows state (.other step))
    (lasts : step = .restart → state.session.ledger.backend.Lasts) :
    job.IsAt next (job.act state (.other step)) := by
  have same : (state.session.step step).ledger.contents.value? job.key =
      state.session.ledger.contents.value? job.key := by
    cases step with
    | call now call => exact allowed
    | disturb faults => rfl
    | restart =>
      refine (Session.writtenWithin_step state.session .restart lasts).value?_eq ?_
      cases job <;> simp [Step.footprint, Job.key]
  refine h.of_value?_eq same fun range here => ?_
  split at here
  · cases here
  · exact h.remaining range here

end IsAt

/-- What one action does to a job at work. -/
theorem isAt_act {job : Job} {next : Version} {state : Ingestion} (h : job.IsAt next state)
    {action : Action} (allowed : job.Allows state action)
    (lasts : job.step action = .restart → state.session.ledger.backend.Lasts) :
    ∃ next', job.IsAt next' (job.act state action) := by
  cases action with
  | resolve now => exact ⟨next, h.resolve now⟩
  | commit now batch events => exact h.commit allowed
  | other step => exact ⟨next, h.other allowed lasts⟩

theorem isAt_run {job : Job} {next : Version} {state : Ingestion} (h : job.IsAt next state)
    {actions : List Action} (allowed : job.AllowsAll state actions)
    (lasting : state.session.AtRestarts Backend.Lasts (actions.map job.step)) :
    ∃ next', job.IsAt next' (job.run state actions) := by
  induction actions generalizing state next with
  | nil => exact ⟨next, h⟩
  | cons action actions ih =>
    obtain ⟨now, later⟩ := allowed
    obtain ⟨lasts, rest⟩ := lasting
    obtain ⟨next', moved⟩ := isAt_act h now lasts
    rw [← session_act] at rest
    exact ih moved later rest

/-- However a job stops, fails to commit, loses its process and goes on again, and whatever others
do in between: every batch that was committed was new progress, the batches stand in order and
do not overlap, and they cover exactly the versions from the initial one to the last one in the row,
which is there as soon as one was committed. -/
theorem ingestion_covers (job : Job) (session : Session) (actions : List Action)
    (free : session.ledger.contents.value? job.key = none)
    (allowed : job.AllowsAll (.start session) actions)
    (lasting : session.AtRestarts Backend.Lasts (actions.map job.step)) :
    (∀ entry ∈ (job.run (.start session) actions).committed,
      entry.2 = .advanced ∧ entry.1.first ≤ entry.1.last) ∧
    (job.run (.start session) actions).committed.Pairwise (fun a b => a.1.last < b.1.first) ∧
    (((job.run (.start session) actions).committed = [] ∧
        (job.run (.start session) actions).session.ledger.contents.value? job.key = none) ∨
      ∃ last, job.lastVersion? (job.run (.start session) actions).session.ledger.contents =
          some last ∧
        ∀ version, (∃ entry ∈ (job.run (.start session) actions).committed,
            entry.1.first ≤ version ∧ version ≤ entry.1.last) ↔
          job.initial ≤ version ∧ version ≤ last) := by
  obtain ⟨next, h⟩ := isAt_run (IsAt.start free) allowed lasting
  generalize job.run (.start session) actions = state at h
  refine ⟨fun entry member => ⟨h.advanced entry member, ?_⟩,
    List.pairwise_map.1 h.consecutive.pairwise, ?_⟩
  · exact (h.consecutive.ordered entry.1 (List.mem_map_of_mem member)).1
  rcases h.row with ⟨absent, none⟩ | ⟨last, found, below, rfl⟩
  · exact .inl ⟨none, absent⟩
  · refine .inr ⟨last, found, fun version => ?_⟩
    have covered := h.consecutive.covers version
    rw [Version.lt_succ_iff below] at covered
    rw [← covered]
    simp only [List.mem_map, Prod.exists, exists_and_right, exists_eq_right]

end Job

/-! ### A job that stops twice -/

namespace StoppedJob

/-- A ledger over a store in memory. -/
def session : Session := (Session.start .inMemory .zero).2

def job : Job := .live "p" 3

/-- A batch is committed and the next one finds no room; the process ends and another one goes on,
while a second processor makes progress of its own. -/
def actions : List Ingestion.Action :=
  [.other (.call 0 (.verifyChain 1)), .resolve 0, .commit 1 ⟨3, 5, none⟩ [],
    .other (.disturb { write := some (.io "no space left") }), .commit 2 ⟨6, 9, none⟩ [],
    .other .restart, .other (.disturb {}), .other (.call 3 (.verifyChain 1)),
    .other (.call 3 (.advance "q" 7 none)), .resolve 4, .commit 5 ⟨6, 7, none⟩ []]

/-- Both batches are committed, and each version from 3 to 7 is in one of them. -/
theorem covers_actions :
    (job.run (.start session) actions).committed =
      [(⟨3, 5, none⟩, .advanced), (⟨6, 7, none⟩, .advanced)] ∧
    ∀ version, (∃ entry ∈ (job.run (.start session) actions).committed,
      entry.1.first ≤ version ∧ version ≤ entry.1.last) ↔ 3 ≤ version ∧ version ≤ 7 := by
  have committed : (job.run (.start session) actions).committed =
      [(⟨3, 5, none⟩, .advanced), (⟨6, 7, none⟩, .advanced)] := by decide +kernel
  have progress : job.lastVersion? (job.run (.start session) actions).session.ledger.contents =
      some 7 := by decide +kernel
  obtain ⟨-, -, ⟨none, -⟩ | ⟨last, found, covers⟩⟩ :=
    job.ingestion_covers session actions (by decide +kernel) (by decide +kernel)
      (Session.lasting_of_home_none (by decide +kernel))
  · rw [committed] at none
    cases none
  · rw [progress] at found
    obtain rfl := Option.some.inj found
    exact ⟨committed, covers⟩

end StoppedJob

end IngestLedger
