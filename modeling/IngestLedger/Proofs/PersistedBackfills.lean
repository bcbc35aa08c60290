import IngestLedger.Proofs.Backfills

/-!
# Settings of backfills in their rows

A ledger remembers the settings that a backfill was started with, and forgets them at a restart;
from then on the backfill goes by the settings in its row. The row may hold older ones: a backfill
that is resumed leaves it as it is. Beginning a backfill anew and moving its row bring the settings
into the row, where they stay until the backfill is started again.

Main definitions:

* `Ledger.PersistsRun`: the row of a backfill holds the settings it was started with.

Main statements:

* `Ledger.persistsRun_of_startOrResume`, `Ledger.persistsRun_of_advanceBackfill`,
  `Ledger.persistsRun_of_commitBatch`: what brings the settings of a backfill into its row.
* `Ledger.PersistsRun.perform`, `Session.persistsRun_run`: what keeps them there.
-/

namespace IngestLedger

/-- The settings in the row of a backfill. -/
def BackfillRow.settings (row : BackfillRow) : BackfillRun :=
  ⟨row.startVersion, row.endingVersion, row.overwrite⟩

namespace Ledger

/-- The row of a backfill holds the settings it was started with, if it was started. -/
def PersistsRun (ledger : Ledger) (name : String) : Prop :=
  ∀ run, ledger.runs name = some run →
    (ledger.contents.row? BackfillRow (.backfill name)).map BackfillRow.settings = some run

@[simp] theorem settings_newBackfillRow (now : Timestamp) (name : String) (run : BackfillRun) :
    (newBackfillRow now name run).settings = run := rfl

@[simp] theorem settings_movedBackfillRow (now : Timestamp) (name : String) (run : BackfillRun)
    (version : Version) (time : Option Timestamp) :
    (movedBackfillRow now name run version time).settings = run := rfl

variable {ledger after : Ledger} {now : Timestamp} {name : String} {version : Version}
  {time : Option Timestamp} {changes : Changes}

/-! ### What persists the settings of a backfill -/

/-- A backfill goes by the settings it was started with. -/
theorem eq_of_backfillSettings {stored : Option BackfillRow} {run started : BackfillRun}
    (settings : ledger.backfillSettings name stored = .ok run)
    (hstarted : ledger.runs name = some started) : run = started := by
  simp only [backfillSettings, hstarted] at settings
  exact (Except.ok.inj settings).symm

/-- A row that is moved holds the settings that the backfill goes by. -/
theorem row?_of_planBackfillAdvance
    (planned : ledger.planBackfillAdvance now name version time = .ok (.advanced, changes)) :
    ∃ run, (∀ started, ledger.runs name = some started → run = started) ∧ ∀ store : Store,
      (store.insertAll changes.entries).row? BackfillRow (.backfill name) =
        some (movedBackfillRow now name run version time) := by
  obtain ⟨bytes, stored, run, hkey, -, settings, -, ⟨-, stale, -⟩ |
    ⟨-, -, value, encoded, rfl⟩⟩ := planBackfillAdvance_ok planned
  · cases stale
  · refine ⟨run, fun started => eq_of_backfillSettings settings, fun store => ?_⟩
    exact store.row?_insertAll_single (keyBytes_eq_ok_iff.1 hkey) encoded

theorem entries_of_planBackfillAdvance_stale
    (planned : ledger.planBackfillAdvance now name version time = .ok (.stale, changes)) :
    changes.entries = [] := by
  obtain ⟨-, -, -, -, -, -, -, ⟨-, -, rfl⟩ | ⟨-, moved, -⟩⟩ := planBackfillAdvance_ok planned
  · rfl
  · cases moved

/-- The row of a backfill that begins anew. -/
theorem row?_of_planStart {run : BackfillRun} {plan : BackfillPlan}
    (overwrite : run.overwrite = true)
    (planned : ledger.planStart now name run = .ok (plan, changes)) (store : Store) :
    (store.insertAll changes.entries).row? BackfillRow (.backfill name) =
      some (newBackfillRow now name run) := by
  obtain ⟨bytes, -, hkey, -, ⟨-, -, value, encoded, rfl⟩ | ⟨keeps, -⟩⟩ := planStart_ok planned
  · exact Store.row?_insertAll_single _ (keyBytes_eq_ok_iff.1 hkey) encoded
  · rw [overwrite] at keeps
    cases keeps

theorem persistsRun_of_startOrResume {run : BackfillRun} {plan : BackfillPlan}
    (overwrite : run.overwrite = true)
    (answered : ledger.startOrResume now name run = (.ok plan, after)) :
    after.PersistsRun name := by
  rcases startOrResume_cases ledger now name run with
    ⟨plan', written, transacted, started⟩ | ⟨e, failed, -, started⟩
  · obtain ⟨-, rfl⟩ := Prod.mk.inj (started.symm.trans answered)
    obtain ⟨changes, planned, contents, -⟩ := transact_ok transacted
    intro registered same
    show (written.contents.row? BackfillRow (.backfill name)).map BackfillRow.settings = _
    rw [contents, row?_of_planStart overwrite planned, Option.map_some, settings_newBackfillRow,
      ← same]
    exact (if_pos rfl).symm
  · cases (Prod.mk.inj (started.symm.trans answered)).1

theorem persistsRun_of_advanceBackfill
    (answered : ledger.advanceBackfill now name version time = (.ok .advanced, after)) :
    after.PersistsRun name := by
  have runs := (sameAround_of_transact answered).runs
  obtain ⟨changes, planned, contents, -⟩ := transact_ok answered
  obtain ⟨-, -, planned⟩ := bind_eq_ok_iff.1 planned
  obtain ⟨run, same, moved⟩ := row?_of_planBackfillAdvance planned
  intro started registered
  rw [runs] at registered
  rw [contents, moved, Option.map_some, settings_movedBackfillRow, same started registered]

theorem persistsRun_of_commitBatch {processor id : String} {initial : Version}
    {ending : Option Version} {overwrite : Bool} {batch : BatchInfo} {events : List IdentityEvent}
    {outcome : BatchOutcome}
    (answered : ledger.commitBatch now processor (.backfill id initial ending overwrite) batch
      events = (.ok outcome, after)) (advanced : outcome.checkpoint = .advanced) :
    after.PersistsRun (backfillAlias processor id) := by
  have runs := (sameAround_commitBatch answered).runs
  obtain ⟨-, progress, rest, hprogress, hrest, contents, -⟩ := commitBatch_ok answered
  obtain ⟨⟨moved, row⟩, hplan, planned⟩ := bind_eq_ok_iff.1 hprogress
  obtain ⟨same, rfl⟩ := Prod.mk.inj (Except.ok.inj planned)
  obtain rfl : moved = .advanced := by
    cases moved with
    | advanced => rfl
    | stale => exact absurd (same.trans advanced) (by decide)
  obtain ⟨run, same, moved⟩ := row?_of_planBackfillAdvance hplan
  intro started registered
  rw [runs] at registered
  have kept : after.contents.value? (.backfill (backfillAlias processor id)) =
      (ledger.contents.insertAll row.entries).value? (.backfill (backfillAlias processor id)) := by
    rw [contents]
    exact value?_insertAll_of_planEvents hrest (.backfill _)
      ProgressKind.backfill.table_notMem_identity _
  rw [Store.row?_congr kept, moved, Option.map_some, settings_movedBackfillRow,
    same started registered]

/-! ### What keeps them persisted -/

theorem PersistsRun.of_value?_eq (h : ledger.PersistsRun name)
    (runs : after.runs name = ledger.runs name)
    (value : after.contents.value? (.backfill name) = ledger.contents.value? (.backfill name)) :
    after.PersistsRun name := by
  intro run registered
  rw [Store.row?_congr value]
  exact h run (runs.symm.trans registered)

theorem PersistsRun.advanceBackfill (h : ledger.PersistsRun name) (now : Timestamp)
    (version : Version) (time : Option Timestamp) :
    (ledger.advanceBackfill now name version time).2.PersistsRun name := by
  cases result : ledger.advanceBackfill now name version time with
  | mk answer after =>
    have kept := (sameAround_of_transact result).runs
    cases answer with
    | error e =>
      refine h.of_value?_eq (congrFun kept name) ?_
      rw [contents_of_transact_error result]
    | ok outcome =>
      cases outcome with
      | advanced => exact persistsRun_of_advanceBackfill result
      | stale =>
        obtain ⟨changes, planned, contents, -⟩ := transact_ok result
        obtain ⟨-, -, planned⟩ := bind_eq_ok_iff.1 planned
        refine h.of_value?_eq (congrFun kept name) ?_
        rw [contents, entries_of_planBackfillAdvance_stale planned, Store.insertAll_nil]

theorem PersistsRun.commitBatch {processor id : String}
    (h : ledger.PersistsRun (backfillAlias processor id)) (now : Timestamp) (initial : Version)
    (ending : Option Version) (overwrite : Bool) (batch : BatchInfo) (events : List IdentityEvent) :
    (ledger.commitBatch now processor (.backfill id initial ending overwrite) batch
      events).2.PersistsRun (backfillAlias processor id) := by
  cases result : ledger.commitBatch now processor (.backfill id initial ending overwrite) batch
      events with
  | mk answer after =>
    have kept := (sameAround_commitBatch result).runs
    cases answer with
    | error e =>
      refine h.of_value?_eq (congrFun kept _) ?_
      rw [contents_of_transact_error result]
    | ok outcome =>
      by_cases advanced : outcome.checkpoint = .advanced
      · exact persistsRun_of_commitBatch result advanced
      · obtain ⟨-, progress, rest, hprogress, hrest, contents, -⟩ := commitBatch_ok result
        obtain ⟨⟨moved, row⟩, hplan, planned⟩ := bind_eq_ok_iff.1 hprogress
        obtain ⟨same, rfl⟩ := Prod.mk.inj (Except.ok.inj planned)
        obtain rfl : moved = .stale := by
          cases moved with
          | advanced => exact absurd same.symm advanced
          | stale => rfl
        refine h.of_value?_eq (congrFun kept _) ?_
        rw [contents, entries_of_planBackfillAdvance_stale hplan, Store.insertAll_nil]
        exact value?_insertAll_of_planEvents hrest (.backfill _)
          ProgressKind.backfill.table_notMem_identity _

/-- A backfill stays persisted until it is started again. -/
theorem PersistsRun.perform (h : ledger.PersistsRun name) (now : Timestamp) {call : Call}
    (other : call.started? ≠ some name) : (ledger.perform now call).2.PersistsRun name := by
  by_cases inside : Key.backfill name ∈ call.footprint
  · have table := Call.table_mem_of_mem_footprint inside
    -- beside starting it, only moving its row writes to the row of a backfill
    cases call with
    | advanceBackfill moved version time =>
      obtain rfl := Key.backfill.inj (List.mem_singleton.1 inside)
      exact h.advanceBackfill now version time
    | commitBatch processor mode batch events =>
      rcases List.mem_append.1 inside with here | here
      · cases mode with
        | live initial => cases List.mem_singleton.1 here
        | backfill id initial ending overwrite =>
          obtain rfl := Key.backfill.inj (List.mem_singleton.1 here)
          exact h.commitBatch now initial ending overwrite batch events
        | testing start ending => cases here
      · obtain ⟨event, -, written⟩ := List.mem_flatMap.1 here
        exact absurd (event.table_mem_of_mem_keys written) (by simp [Key.table, Table.identity])
    | startOrResume started run =>
      exact absurd (congrArg some (Key.backfill.inj (BackfillRun.eq_of_mem_keys inside)).symm) other
    | resolveRange processor mode =>
      cases mode with
      | live initial => cases inside
      | backfill id initial ending overwrite =>
        exact absurd (congrArg some (Key.backfill.inj (BackfillRun.eq_of_mem_keys inside)).symm)
          other
      | testing start ending => cases inside
    | verifyChain chain => exact absurd table (by simp [Key.table, Call.tables])
    | advance processor version time =>
      exact absurd table (by simp [Key.table, Call.tables, ProgressKind.table])
    | apply event => exact absurd table (by simp [Key.table, Call.tables, Table.identity])
  · exact h.of_value?_eq (runs_perform ledger now other) (value?_perform ledger now inside)

/-! ### Histories -/

/-- A ledger that is opened knows neither a chain nor a backfill. -/
theorem forgets_openOn (backend : Backend) (counters : Counters) :
    (openOn backend counters).2.verifiedChain = none ∧
      (openOn backend counters).2.runs = fun _ => none :=
  have kept := sameAround_transact (fresh backend counters) (fresh backend counters).planLayout
  ⟨kept.verifiedChain, kept.runs⟩

end Ledger

/-- In a history a backfill stays persisted until it is started again. -/
theorem Session.persistsRun_run {session : Session} {name : String} {steps : List Step}
    (h : session.ledger.PersistsRun name)
    (other : ∀ now call, .call now call ∈ steps → call.started? ≠ some name) :
    (session.run steps).ledger.PersistsRun name := by
  induction steps generalizing session with
  | nil => exact h
  | cons step steps ih =>
    refine ih ?_ fun now call later => other now call (List.mem_cons_of_mem _ later)
    cases step with
    | call now call =>
      simp only [Session.step, perform]
      split
      · exact h.perform now (other now call List.mem_cons_self)
      · exact h
    | disturb faults => exact h
    | restart =>
      -- a process that has just been started has no backfills
      simp only [Session.step, restart, ofOpening, Ledger.reopen]
      intro run registered
      split at registered
      · rw [(Ledger.forgets_openOn _ _).2] at registered
        cases registered
      · cases registered

end IngestLedger
