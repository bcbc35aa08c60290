import IngestLedger.Proofs.BackfillRows
import IngestLedger.Proofs.Jobs

/-!
# Finished backfills

A backfill that is started again begins after its progress, and is finished when nothing is left up
to its end. Up to an end below the greatest version, that is so exactly when its row has come to the
end, and no version up to its last one is given out again. No version comes after the greatest one:
a backfill up to there is never finished, and gives out the greatest version again and again.

That a backfill is finished under the end it is started with does not make its row complete. The row
tells whether it came to the end it was moved towards; when that was a greater end, or none, it is
in progress, and it stays so, since under the new end nothing moves it any more.

Main definitions:

* `Store.lastBackfilled?`: the progress of a backfill.
* `Ledger.IsSpent`: a backfill was started with an end that it has reached before.

Main statements:

* `BackfillRun.firstAfter_le_iff`: the versions that a backfill has still to process.
* `Life.started_again_isFinished_iff`: when a backfill is finished, and which versions it gives out.
* `Ledger.value?_perform_of_isSpent`, `Session.value?_run_of_isSpent`: nothing moves a backfill that
  is spent.
* `Life.complete_iff_of_isFinished`: when a finished backfill is complete.
-/

namespace IngestLedger

/-! ### What is left of a backfill -/

/-- The last version in the row of a backfill, if it has one. -/
def Store.lastBackfilled? (store : Store) (name : String) : Option Version :=
  (store.row? BackfillRow (.backfill name)).bind BackfillRow.lastVersion

/-- What a backfill that does not begin anew has still to process: the versions from its initial one
on that lie beyond its progress, and the greatest version. -/
theorem BackfillRun.firstAfter_le_iff {run : BackfillRun} {stored : Option BackfillRow}
    {version : Version} : run.firstAfter stored ≤ version ↔ run.initial ≤ version ∧
      ∀ last, stored.bind BackfillRow.lastVersion = some last →
        last < version ∨ version = .greatest := by
  rw [firstAfter, BackfillRow.bind_next?]
  cases stored.bind BackfillRow.lastVersion with
  | none => simp
  | some last =>
    have next_le : last.next ≤ version ↔ last < version ∨ version = .greatest := by
      rw [← UInt64.not_lt, Version.lt_next_iff, not_and_or, UInt64.not_le, not_not]
    simp only [Option.map_some, Option.some.injEq, forall_eq', ← next_le]
    split
    · rename_i beyond
      exact ⟨fun le => ⟨UInt64.le_trans (UInt64.le_of_lt beyond) le, le⟩, And.right⟩
    · rename_i within
      exact ⟨fun le => ⟨le, UInt64.le_trans (UInt64.not_lt.1 within) le⟩, And.left⟩

section Plans

variable {run : BackfillRun} {store : Store} {name : String} {plan : BackfillPlan}
  {ending : Version}

/-- Which versions a plan gives out. -/
theorem BackfillPlan.contains_range_iff
    (start : plan.start = run.firstAfter (store.row? BackfillRow (.backfill name)))
    (end_eq : plan.ending = some ending) (version : Version) :
    plan.range.contains version = true ↔ run.initial ≤ version ∧ version ≤ ending ∧
      ∀ last, store.lastBackfilled? name = some last → last < version ∨ version = .greatest := by
  simp only [range, VersionRange.contains, end_eq, start, Bool.and_eq_true, decide_eq_true_eq,
    BackfillRun.firstAfter_le_iff, Store.lastBackfilled?, and_assoc]
  rw [and_comm (a := version ≤ ending)]

/-- Nothing is left exactly when the row has come to an end below the greatest version. -/
theorem BackfillPlan.isFinished_iff
    (start : plan.start = run.firstAfter (store.row? BackfillRow (.backfill name)))
    (end_eq : plan.ending = some ending) (ordered : run.initial ≤ ending) :
    plan.isFinished = true ↔ ending ≠ .greatest ∧
      ∃ last, store.lastBackfilled? name = some last ∧ ending ≤ last := by
  have begins : plan.start ≤ ending ↔ run.initial ≤ ending ∧ ∀ last,
      store.lastBackfilled? name = some last → last < ending ∨ ending = .greatest := by
    rw [start]
    exact BackfillRun.firstAfter_le_iff
  have left : plan.isFinished = true ↔ ¬ plan.start ≤ ending := by
    simp [isFinished, end_eq]
  rw [left, begins]
  constructor
  · intro nothing_left
    simp only [ordered, true_and, not_forall, not_or, UInt64.not_lt] at nothing_left
    obtain ⟨last, here, reached, below⟩ := nothing_left
    exact ⟨below, last, here, reached⟩
  · rintro ⟨below, last, here, reached⟩ ⟨-, beyond⟩
    exact (beyond last here).elim (UInt64.not_lt.2 reached) below

end Plans

/-- In every life, for every name and every range that does not end before it begins: a backfill
that does not begin anew can be started unless the store is not read. It is finished exactly when
the last version in its row is not before the end, unless the end is the greatest version, and then
it never is. The versions that it gives out are those of its range that lie beyond the last version
in its row, and the greatest version whenever that is the end. -/
theorem Life.started_again_isFinished_iff (life : Life) (now : Timestamp) (name : String)
    {initial ending : Version} (ordered : initial ≤ ending) :
    (life.ledger.backend.faults.get = none → Nameable name → ∃ plan,
      (life.ledger.startOrResume now name ⟨initial, some ending, false⟩).1 = .ok plan) ∧
    ∀ plan, (life.ledger.startOrResume now name ⟨initial, some ending, false⟩).1 = .ok plan →
      (plan.isFinished = true ↔ ending ≠ .greatest ∧
        ∃ last, life.ledger.contents.lastBackfilled? name = some last ∧ ending ≤ last) ∧
      ∀ version, plan.range.contains version = true ↔ initial ≤ version ∧ version ≤ ending ∧
        ∀ last, life.ledger.contents.lastBackfilled? name = some last →
          last < version ∨ version = .greatest := by
  constructor
  · intro reads nameable
    have keeps : (⟨initial, some ending, false⟩ : BackfillRun).overwrite = false := rfl
    obtain ⟨plan, answered, -⟩ :=
      Ledger.exists_startOrResume now life.isWellFormed reads nameable keeps
    exact ⟨plan, answered⟩
  · intro plan answered
    obtain ⟨start, end_eq, -⟩ := Ledger.startOrResume_ok_of_keeps rfl (Prod.ext answered rfl)
    exact ⟨BackfillPlan.isFinished_iff start end_eq ordered,
      BackfillPlan.contains_range_iff start end_eq⟩

namespace TopOfStream

/-- A backfill up to the greatest version that is complete. -/
def life : Life := .inMemory
  [.call 0 (.verifyChain 1), .call 1 (.startOrResume "b" ⟨0, some .greatest, false⟩),
    .call 2 (.advanceBackfill "b" .greatest none)]

/-- Started again with the same end, it is not finished and gives out its last version again. With
an end before that one it is finished. -/
theorem not_isFinished_again :
    (life.ledger.contents.row? BackfillRow (.backfill "b")).map BackfillRow.status =
      some .complete ∧
    life.ledger.contents.lastBackfilled? "b" = some .greatest ∧
    ∃ plan, (life.ledger.startOrResume 3 "b" ⟨0, some .greatest, false⟩).1 = .ok plan ∧
      plan.isFinished = false ∧ plan.range.contains .greatest = true := by
  refine ⟨by decide +kernel, by decide +kernel, ⟨"b", .greatest, some .greatest, true⟩,
    by decide +kernel, by decide, by decide⟩

/-- The end one version earlier. -/
theorem isFinished_before :
    (0 : Version) ≤ 0xFFFFFFFFFFFFFFFE ∧ ∃ plan,
      (life.ledger.startOrResume 3 "b" ⟨0, some 0xFFFFFFFFFFFFFFFE, false⟩).1 = .ok plan ∧
      plan.isFinished = true := by
  have ordered : (0 : Version) ≤ 0xFFFFFFFFFFFFFFFE := by decide
  obtain ⟨started, plans⟩ := life.started_again_isFinished_iff 3 "b" ordered
  obtain ⟨plan, answered⟩ := started (by decide +kernel) (by decide)
  refine ⟨ordered, plan, answered, (plans plan answered).1.2 ⟨by decide, .greatest, ?_, by decide⟩⟩
  decide +kernel

end TopOfStream

/-! ### Backfills that are spent -/

/-- Beginning a backfill anew is one way of starting it. -/
theorem Call.started?_of_begins? {call : Call} {name : String}
    (begins : call.begins? = some name) :
    call.started? = some name := by
  cases call with
  | startOrResume begun run => exact (Option.ite_none_right_eq_some.1 begins).2
  | resolveRange processor mode =>
    cases mode with
    | backfill id initial ending overwrite => exact (Option.ite_none_right_eq_some.1 begins).2
    | live | testing => cases begins
  | verifyChain | advance | advanceBackfill | apply | commitBatch => cases begins

namespace Ledger

variable {ledger : Ledger} {now : Timestamp} {name : String} {call : Call}

/-- A backfill was started with an end that its row has come to before. -/
def IsSpent (ledger : Ledger) (name : String) : Prop :=
  ∃ run ending last, ledger.runs name = some run ∧ run.ending = some ending ∧
    ledger.contents.lastBackfilled? name = some last ∧ ending ≤ last

theorem IsSpent.of_value?_eq {after : Ledger} (h : ledger.IsSpent name)
    (runs : after.runs name = ledger.runs name)
    (value : after.contents.value? (.backfill name) = ledger.contents.value? (.backfill name)) :
    after.IsSpent name := by
  unfold IsSpent Store.lastBackfilled?
  rw [runs, Store.row?_congr value]
  exact h

/-- A move of a backfill that is spent is beyond its end or stale. -/
theorem IsSpent.entries_of_planBackfillAdvance (h : ledger.IsSpent name) {version : Version}
    {time : Option Timestamp} {outcome : AdvanceOutcome} {changes : Changes}
    (planned : ledger.planBackfillAdvance now name version time = .ok (outcome, changes)) :
    changes.entries = [] := by
  obtain ⟨run, ending, last, registered, end_eq, here, reached⟩ := h
  obtain ⟨bytes, stored, settings, hkey, read, goes_by, inside, ⟨-, -, rfl⟩ | ⟨beyond, -⟩⟩ :=
    planBackfillAdvance_ok planned
  · rfl
  · obtain rfl := eq_of_backfillSettings goes_by registered
    rw [keyBytes_eq_ok_iff] at hkey
    rw [Store.lastBackfilled?, row?_of_readRow hkey read] at here
    have within : version ≤ ending := BackfillRow.le_of_checkEnd inside ending end_eq
    exact absurd (beyond last here) (UInt64.not_lt.2 (UInt64.le_trans within reached))

/-- Until it is started again, no call moves a backfill that is spent. -/
theorem value?_perform_of_isSpent (h : ledger.IsSpent name) (now : Timestamp)
    (other : call.started? ≠ some name) :
    (ledger.perform now call).2.contents.value? (.backfill name) =
      ledger.contents.value? (.backfill name) := by
  cases performed : ledger.perform now call with
  | mk result after =>
    cases result with
    | error e => rw [contents_of_perform_error performed]
    | ok answer =>
      rcases perform_moved performed .backfill name with
        ⟨⟨kind, moving, version, time⟩, outcome, changes, -, same, planned, -, value⟩ |
          ⟨-, kept | ⟨-, begins⟩⟩
      · obtain ⟨rfl, rfl⟩ : kind = .backfill ∧ moving = name := ProgressKind.eq_of_key same
        rw [h.entries_of_planBackfillAdvance planned, Store.insertAll_nil] at value
        exact value
      · exact kept
      · exact absurd (Call.started?_of_begins? begins) other

end Ledger

/-- In a process that does not start it again, a backfill that is spent keeps its row, whatever
calls are made and fail. -/
theorem Session.value?_run_of_isSpent {session : Session} {name : String} {steps : List Step}
    (h : session.ledger.IsSpent name) (same_process : Step.restart ∉ steps)
    (other : ∀ now call, .call now call ∈ steps → call.started? ≠ some name) :
    (session.run steps).ledger.contents.value? (.backfill name) =
      session.ledger.contents.value? (.backfill name) := by
  induction steps generalizing session with
  | nil => rfl
  | cons step steps ih =>
    have later : (session.step step).ledger.IsSpent name →
        ((session.step step).run steps).ledger.contents.value? (.backfill name) =
          (session.step step).ledger.contents.value? (.backfill name) := fun spent =>
      ih spent (fun here => same_process (List.mem_cons_of_mem _ here))
        fun now call here => other now call (List.mem_cons_of_mem _ here)
    rw [run_cons]
    cases step with
    | call now call =>
      have unstarted := other now call List.mem_cons_self
      by_cases opened : session.isOpen = true
      · have made : (session.step (.call now call)).ledger =
            (session.ledger.perform now call).2 := by
          simp only [Session.step, perform, if_pos opened]
        rw [made] at later
        have kept := Ledger.value?_perform_of_isSpent h now unstarted
        have spent := h.of_value?_eq (Ledger.runs_perform session.ledger now unstarted) kept
        exact (later spent).trans kept
      · have made : session.step (.call now call) = session := by
          rw [Session.step, perform_of_not_open (Bool.not_eq_true _ ▸ opened)]
        rw [made] at later ⊢
        exact later h
    | disturb faults => exact later h
    | restart => exact absurd List.mem_cons_self same_process

/-- In every life, a backfill that is finished when it is started without beginning anew has a row
that has come to the end; but the row is complete only if its last version is also the end that
stands in the row, and that is so when the end in the row is not beyond the one that the backfill is
started with. As long as the process lasts and does not start it once more, the row stays. -/
theorem Life.complete_iff_of_isFinished (life : Life) {now : Timestamp} {name : String}
    {initial ending : Version} (ordered : initial ≤ ending) {plan : BackfillPlan} {after : Ledger}
    (answered : life.ledger.startOrResume now name ⟨initial, some ending, false⟩ =
      (.ok plan, after)) (finished : plan.isFinished = true) :
    ∃ row last, after.contents.row? BackfillRow (.backfill name) = some row ∧
      row.lastVersion = some last ∧ ending ≤ last ∧
      (row.status = .complete ↔ row.endingVersion = some last) ∧
      (∀ stored, row.endingVersion = some stored → stored ≤ ending → row.status = .complete) ∧
      ∀ isOpen steps, Step.restart ∉ steps →
        (∀ now call, .call now call ∈ steps → call.started? ≠ some name) →
        (Session.run ⟨after, isOpen⟩ steps).ledger.contents.row? BackfillRow (.backfill name) =
          some row := by
  obtain ⟨start, end_eq, contents, registered⟩ := Ledger.startOrResume_ok_of_keeps rfl answered
  obtain ⟨-, last, here, reached⟩ := (BackfillPlan.isFinished_iff start end_eq ordered).1 finished
  obtain ⟨row, held, last_eq⟩ := Option.bind_eq_some_iff.1 here
  have tells := (life.holds_along (KeepsRow.isPreserved name) (.empty name)).tells row held
  rw [← contents] at held here
  have complete_iff : row.status = .complete ↔ row.endingVersion = some last := by
    rw [tells.complete_iff, last_eq]
    constructor
    · rintro ⟨stored, stored_eq, same⟩
      rw [stored_eq, same]
    · intro stored_eq
      exact ⟨last, stored_eq, rfl⟩
  refine ⟨row, last, held, last_eq, reached, complete_iff, fun stored stored_eq le => ?_,
    fun isOpen steps same_process other => ?_⟩
  · -- the last version lies between the end that was asked for and the one in the row
    have upTo : last ≤ stored := tells.le_ending last stored last_eq stored_eq
    have same : stored = last := UInt64.le_antisymm (UInt64.le_trans le reached) upTo
    rw [complete_iff, stored_eq, same]
  · have spent : (Session.mk after isOpen).ledger.IsSpent name :=
      ⟨_, _, last, registered, rfl, here, reached⟩
    rw [Store.row?_congr (Session.value?_run_of_isSpent spent same_process other)]
    exact held

namespace ShorterEnd

/-- A backfill that has come half the way to its end. -/
def life : Life := .inMemory
  [.call 0 (.verifyChain 1), .call 1 (.startOrResume "b" ⟨0, some 100, false⟩),
    .call 2 (.advanceBackfill "b" 50 none)]

/-- It is started again with an end that lies before its progress. -/
def again : Except LedgerError BackfillPlan × Ledger :=
  life.ledger.startOrResume 3 "b" ⟨0, some 30, false⟩

/-- It is finished then, and in progress. -/
theorem isFinished_in_progress : (0 : Version) ≤ 30 ∧
    ∃ plan, again.1 = .ok plan ∧ plan.isFinished = true ∧
      (again.2.contents.row? BackfillRow (.backfill "b")).map BackfillRow.status =
        some .inProgress :=
  ⟨by decide, ⟨"b", 51, some 30, true⟩, by decide +kernel, by decide, by decide +kernel⟩

/-- It stays in progress, whether it is moved up to the new end or beyond it. -/
theorem in_progress_later : (0 : Version) ≤ 30 ∧
    (again.1 = .ok ⟨"b", 51, some 30, true⟩ ∧
      (⟨"b", 51, some 30, true⟩ : BackfillPlan).isFinished = true) ∧
    ((Session.run ⟨again.2, true⟩ [.call 4 (.advanceBackfill "b" 30 none),
      .call 5 (.advanceBackfill "b" 100 none)]).ledger.contents.row? BackfillRow
        (.backfill "b")).map BackfillRow.status = some .inProgress := by
  have answer : again.1 = .ok ⟨"b", 51, some 30, true⟩ := by decide +kernel
  have ordered : (0 : Version) ≤ 30 := by decide
  have finished : (⟨"b", 51, some 30, true⟩ : BackfillPlan).isFinished = true := by decide
  have answered : again = (again.1, again.2) := (Prod.eta again).symm
  rw [answer] at answered
  obtain ⟨row, last, held, -, -, -, -, stays⟩ :=
    life.complete_iff_of_isFinished ordered answered finished
  have status : (again.2.contents.row? BackfillRow (.backfill "b")).map BackfillRow.status =
      some .inProgress := by decide +kernel
  refine ⟨ordered, ⟨answer, finished⟩, ?_⟩
  rw [stays true _ (by decide) fun now call made => ?_, ← held]
  · exact status
  · simp only [List.mem_cons, Step.call.injEq, List.not_mem_nil, or_false] at made
    rcases made with ⟨-, rfl⟩ | ⟨-, rfl⟩ <;> decide

end ShorterEnd

end IngestLedger
