import IngestLedger.Proofs.BackfillRows
import IngestLedger.Proofs.Growth
import IngestLedger.Proofs.Verification

/-!
# What the counters count

Every counter grows as it has to, with every call over every store and so in every history: what a
plan counts is counted when the plan was carried out, and what was staged for a call that failed is
never counted.

Main definitions:

* `Session.growth`: by how much a counter has to grow in a history.

Main statements:

* `Ledger.count_perform`: every counter grows as it has to, in every call over every store.
* `Session.counters_reconcile`: the counters after every history.
-/

namespace IngestLedger

namespace Ledger

variable {ledger after : Ledger} {now : Timestamp} {call : Call} {answer : Answer}
  {changes : Changes}

/-! ### Calls that need no verified chain -/

/-- A chain is read exactly when there is a value under its key. -/
theorem isSome_chain_of_chainId {found : Option ChainId} (read : ledger.chainId = .ok found) :
    (ledger.contents.value? .chain).isSome = found.isSome := by
  unfold chainId at read
  split at read
  · rename_i stored row
    obtain rfl := Except.ok.inj read
    have hkey : Key.chain.bytes = .ok Key.chainBytes := rfl
    rcases readRow_cases hkey row with ⟨absent, rfl⟩ | ⟨value, held, found, rfl, -⟩
    · rw [absent]
      rfl
    · rw [found]
      rfl
  · cases read

theorem counted_of_planVerify {chain : ChainId} {answer : Unit}
    (planned : ledger.planVerify chain = .ok (answer, changes)) :
    changes.counted = [.chainChecked
      (if (ledger.contents.value? .chain).isSome then .verified else .initialized)] := by
  unfold planVerify at planned
  split at planned
  · cases planned
  · rename_i stored read
    rw [isSome_chain_of_chainId read]
    split at planned
    · obtain ⟨-, rfl⟩ := Prod.mk.inj (Except.ok.inj planned)
      rfl
    · cases planned
  · rename_i read
    rw [isSome_chain_of_chainId read]
    obtain ⟨value, -, planned⟩ := bind_eq_ok_iff.1 planned
    obtain ⟨-, rfl⟩ := Prod.mk.inj (Except.ok.inj planned)
    rfl

theorem counted_of_planStart {name : String} {run : BackfillRun} {plan : BackfillPlan}
    (planned : ledger.planStart now name run = .ok (plan, changes)) : changes.counted = [] := by
  obtain ⟨-, -, -, -, ⟨-, -, -, -, rfl⟩ | ⟨-, rfl⟩⟩ := planStart_ok planned
  · rfl
  · rfl

theorem counted_of_planRange {processor : String} {mode : RunMode} {range : VersionRange}
    (planned : ledger.planRange now processor mode = .ok (range, changes)) :
    changes.counted = [] := by
  cases mode with
  | live initial =>
    cases first : ledger.resumeVersion processor initial with
    | error e => simp [planRange, first, Except.map] at planned
    | ok version =>
      simp only [planRange, first, Except.map] at planned
      obtain ⟨-, rfl⟩ := Prod.mk.inj (Except.ok.inj planned)
      rfl
  | backfill id initial ending overwrite =>
    obtain ⟨plan, planned, -⟩ := planAnswering_eq_ok_iff.1 planned
    exact counted_of_planStart planned
  | testing start ending =>
    obtain ⟨-, rfl⟩ := Prod.mk.inj (Except.ok.inj planned)
    rfl

section Single

variable (single : call.commits = false)
include single

/-- These calls have no events and move no row. -/
theorem events_of_not_commits : call.events = [] ∧ call.move? = none := by
  cases call with
  | verifyChain | startOrResume | resolveRange => exact ⟨rfl, rfl⟩
  | advance | advanceBackfill | apply | commitBatch => cases single

/-- Nor do they complete a backfill: one that begins anew is in progress. -/
theorem not_completes_of_not_commits (performed : ledger.perform now call = (.ok answer, after)) :
    ¬ ledger.contents.Completes after.contents := by
  rintro ⟨name, complete, before⟩
  by_cases begins : call.begins? = some name
  · obtain ⟨run, -, row⟩ := row?_of_begins performed begins
    rw [Store.HasComplete, row] at complete
    cases complete
  · rcases perform_moved performed .backfill name with
      ⟨move, outcome, changes, made, -⟩ | ⟨-, kept | ⟨-, anew⟩⟩
    · rw [(events_of_not_commits single).2] at made
      cases made
    · exact before ((Store.hasComplete_congr kept).1 complete)
    · exact begins anew

theorem tally_of_not_commits (planned : ledger.plan now call = .ok (answer, changes)) :
    answer.tally = ⟨0, 0⟩ := by
  cases call with
  | verifyChain | startOrResume | resolveRange =>
    obtain ⟨_, -, rfl⟩ := planAnswering_eq_ok_iff.1 planned
    rfl
  | advance | advanceBackfill | apply | commitBatch => cases single

/-- What is counted for them is what verifying a chain tells. -/
theorem counted_of_not_commits (planned : ledger.plan now call = .ok (answer, changes)) :
    changes.counted =
      ((call.chainCheck? ledger.contents (.ok answer)).map Counter.chainChecked).toList := by
  cases call with
  | verifyChain chain =>
    obtain ⟨_, planned, -⟩ := planAnswering_eq_ok_iff.1 planned
    simp only [counted_of_planVerify planned, Call.chainCheck?, Option.map_some, Option.toList_some]
  | startOrResume name run =>
    obtain ⟨plan, planned, -⟩ := planAnswering_eq_ok_iff.1 planned
    exact counted_of_planStart planned
  | resolveRange processor mode =>
    obtain ⟨range, planned, -⟩ := planAnswering_eq_ok_iff.1 planned
    exact counted_of_planRange planned
  | advance | advanceBackfill | apply | commitBatch => cases single

/-- Every counter grows as it has to with them. -/
theorem count_of_not_commits (performed : ledger.perform now call = (.ok answer, after))
    (planned : ledger.plan now call = .ok (answer, changes)) (counter : Counter) :
    changes.counted.count counter =
      call.growth (.ok answer) ledger.contents after.contents counter := by
  obtain ⟨none, unmoved⟩ := events_of_not_commits single
  rw [counted_of_not_commits single planned, growth_of_quiet]
  · exact Call.reported?_of_none unmoved answer
  · simp only [Call.staleEvents, none]
    rfl
  · intro key identity
    have kept := value?_perform ledger now fun inside =>
      Call.table_notMem_identity none inside identity
    rwa [performed] at kept
  · exact not_completes_of_not_commits single performed

end Single

/-! ### Counting failures -/

/-- What is counted for a call that failed: that a chain was refused, or nothing. -/
theorem counters_of_perform_error {e : LedgerError}
    (failed : ledger.perform now call = (.error e, after)) :
    after.counters = ledger.counters.add
      ((call.chainCheck? ledger.contents (.error e)).map Counter.chainChecked).toList := by
  cases call with
  | verifyChain chain =>
    rcases counters_of_verifyChain_error (answering_eq_error failed) with
      ⟨⟨stored, rfl⟩, counted⟩ | ⟨other, counted⟩
    · exact counted
    · have unchecked : Call.chainCheck? ledger.contents (.verifyChain chain) (.error e) = none := by
        cases e with
        | chainMismatch stored attempted => exact absurd rfl (other stored attempted)
        | _ => rfl
      rw [unchecked]
      exact counted
  | _ =>
    rcases perform_error failed with same | ⟨chain, -, verifying, -⟩
    · exact same.counters
    · cases verifying

theorem growth_of_error {e : LedgerError} (store : Store) (counter : Counter) :
    call.growth (.error e) store store counter =
      ((call.chainCheck? store (.error e)).map Counter.chainChecked).toList.count counter :=
  growth_of_quiet rfl rfl (fun _ _ => rfl) store.not_completes_self counter

/-- Every counter grows as it has to in every call, whatever the store holds and whatever the call
is answered. -/
theorem count_perform (ledger : Ledger) (now : Timestamp) (call : Call) (counter : Counter) :
    (ledger.perform now call).2.counters.count counter = ledger.counters.count counter +
      call.growth (ledger.perform now call).1 ledger.contents (ledger.perform now call).2.contents
        counter := by
  cases performed : ledger.perform now call with
  | mk result after =>
    cases result with
    | ok answer =>
      obtain ⟨changes, planned, carried⟩ := perform_ok performed
      rw [carried.counters, Counters.count_add]
      cases commits : call.commits with
      | true => rw [count_of_commits commits planned carried]
      | false => rw [count_of_not_commits commits performed planned]
    | error e =>
      show after.counters.count counter = ledger.counters.count counter +
        call.growth (.error e) ledger.contents after.contents counter
      rw [contents_of_perform_error performed, growth_of_error, counters_of_perform_error performed,
        Counters.count_add]

/-- A call changes finitely many rows: those that it may write. -/
theorem finite_changedRows (ledger : Ledger) (now : Timestamp) (call : Call) (table : RowTable) :
    (ledger.contents.changedRows (ledger.perform now call).2.contents table).Finite := by
  refine (List.finite_toSet call.footprint).subset fun key ⟨_, changed⟩ => ?_
  by_contra outside
  exact changed (Store.version?_congr (value?_perform ledger now outside))

/-- A call that failed has grown no counter but that of refused chains. -/
theorem count_of_perform_error {e : LedgerError}
    (failed : ledger.perform now call = (.error e, after))
    {counter : Counter} (other : counter ≠ .chainChecked .mismatch) :
    after.counters.count counter = ledger.counters.count counter := by
  have refused : ∀ outcome, call.chainCheck? ledger.contents (.error e) = some outcome →
      outcome = .mismatch := by
    intro outcome told
    unfold Call.chainCheck? at told
    split at told
    · rename_i answered
      cases answered
    · exact (Option.some.inj told).symm
    · cases told
  rw [counters_of_perform_error failed, Counters.count_add]
  cases told : call.chainCheck? ledger.contents (.error e) with
  | none => rfl
  | some outcome =>
    obtain rfl := refused outcome told
    simp [Ne.symm other]

/-- Opening a ledger counts nothing. -/
theorem counters_openOn (backend : Backend) (counters : Counters) :
    (openOn backend counters).2.counters = counters := by
  cases opened : openOn backend counters with
  | mk result after =>
    cases result with
    | ok answer =>
      obtain ⟨changes, planned, carried⟩ := carriesOut_of_transact opened
      obtain ⟨-, -, ⟨-, rfl⟩ | ⟨-, value, -, rfl⟩⟩ := planLayout_ok planned
      · exact carried.counters
      · exact carried.counters
    | error e =>
      rcases eq_of_transact_error opened with rfl | ⟨backend, rfl, -, -⟩
      · rfl
      · rfl

/-- The events of an answered call were all written or stale, as its answer tells. -/
theorem growth_eq_tally (performed : ledger.perform now call = (.ok answer, after)) :
    call.growth (.ok answer) ledger.contents after.contents (.identityWritten .accountLinks) +
        call.growth (.ok answer) ledger.contents after.contents (.identityWritten .memberships) =
          answer.tally.applied ∧
      call.growth (.ok answer) ledger.contents after.contents (.staleIgnored .accountLinks) +
        call.growth (.ok answer) ledger.contents after.contents (.staleIgnored .memberships) =
          answer.tally.stale := by
  obtain ⟨changes, planned, carried⟩ := perform_ok performed
  cases commits : call.commits with
  | true =>
    have grown := count_of_commits commits planned carried
    obtain ⟨progress, rest, moved, hrest, rfl⟩ := plan_commit commits planned
    obtain ⟨applied, stale⟩ := tally_of_planEvents hrest
    have events := countP_counter_add ledger.contents (coalesce call.events)
    -- the move counts for none of the four
    have unwritten table : progress.counted.count (.identityWritten table) = 0 :=
      count_eq_zero_of_plansMove moved (by simp) (by simp)
    have links : progress.counted.count (.staleIgnored .accountLinks) = 0 :=
      count_eq_zero_of_plansMove moved (by rintro ⟨⟩ <;> simp [ProgressKind.rowTable]) (by simp)
    have members : progress.counted.count (.staleIgnored .memberships) = 0 :=
      count_eq_zero_of_plansMove moved (by rintro ⟨⟩ <;> simp [ProgressKind.rowTable]) (by simp)
    simp only [← grown, Changes.counted_append, List.count_append, count_of_planEvents hrest,
      unwritten, links, members, Nat.zero_add]
    exact ⟨events.1.trans applied.symm, events.2.trans stale.symm⟩
  | false =>
    have grown := count_of_not_commits commits performed planned
    rw [counted_of_not_commits commits planned] at grown
    simp only [← grown, tally_of_not_commits commits planned]
    cases call.chainCheck? ledger.contents (.ok answer) with
    | none => exact ⟨rfl, rfl⟩
    | some outcome => simp

end Ledger

/-! ### Counting histories -/

namespace Session

/-- By how much a counter has to grow with a step of a session. -/
noncomputable def stepGrowth (session : Session) (counter : Counter) : Step → Nat
  | .call now call =>
    match session.perform now call with
    | (some result, after) =>
      call.growth result session.ledger.contents after.ledger.contents counter
    | (none, _) => 0
  | .disturb _ | .restart => 0

/-- By how much a counter has to grow in a history. -/
noncomputable def growth (session : Session) (counter : Counter) : List Step → Nat
  | [] => 0
  | step :: steps =>
    session.stepGrowth counter step + (session.step step).growth counter steps

variable {session : Session} {counter : Counter}

theorem count_step (session : Session) (counter : Counter) (step : Step) :
    (session.step step).ledger.counters.count counter =
      session.ledger.counters.count counter + session.stepGrowth counter step := by
  cases step with
  | call now call =>
    simp only [Session.step, stepGrowth, perform]
    split
    · exact Ledger.count_perform session.ledger now call counter
    · rfl
  | disturb faults => rfl
  | restart =>
    simp only [Session.step, restart, ofOpening, Ledger.reopen]
    split
    · rw [Ledger.counters_openOn]
      rfl
    · rfl

/-- In every history, every counter grows as it has to with each step. -/
theorem count_run (session : Session) (counter : Counter) (steps : List Step) :
    (session.run steps).ledger.counters.count counter =
      session.ledger.counters.count counter + session.growth counter steps := by
  induction steps generalizing session with
  | nil => rfl
  | cons step steps ih => rw [run_cons, ih, count_step, growth, Nat.add_assoc]

/-- The counters reconcile with what has happened, in every session and every history of it: calls
that are answered and calls that fail, failures of the store and restarts. With each call each
counter grows by what the call has changed and was answered: progress by the moves that are reported
as progress, completed backfills by a row that has become complete, checks of a chain by their
results, written identity rows by the finitely many rows that tell another version, and stale writes
by the stale outcomes. What a call that failed had staged is not counted: no counter grows but that
of refused chains. And the events of an answered call are counted as its answer tells. -/
theorem counters_reconcile (session : Session) :
    (∀ steps counter, (session.run steps).ledger.counters.count counter =
      session.ledger.counters.count counter + session.growth counter steps) ∧
    (∀ now call e after, session.ledger.perform now call = (.error e, after) →
      ∀ counter, counter ≠ .chainChecked .mismatch →
        after.counters.count counter = session.ledger.counters.count counter) ∧
    ∀ now call answer after, session.ledger.perform now call = (.ok answer, after) →
      let growth := call.growth (.ok answer) session.ledger.contents after.contents
      (∀ table, (session.ledger.contents.changedRows after.contents table).Finite) ∧
      growth (.identityWritten .accountLinks) + growth (.identityWritten .memberships) =
        answer.tally.applied ∧
      growth (.staleIgnored .accountLinks) + growth (.staleIgnored .memberships) =
        answer.tally.stale := by
  refine ⟨fun steps counter => count_run session counter steps,
    fun now call e after failed counter => Ledger.count_of_perform_error failed,
    fun now call answer after performed => ⟨fun table => ?_, ?_⟩⟩
  · have finite := Ledger.finite_changedRows session.ledger now call table
    rwa [performed] at finite
  · exact Ledger.growth_eq_tally performed

end Session

/-! ### A batch that is counted -/

namespace CountedBatch

/-- A session with a link and a backfill that has come to its end but for one version. -/
def session : Session := (Session.start .inMemory .zero).2.run
  [.call 0 (.verifyChain 1), .call 1 (.apply (.link ⟨"0x1", "0xab", true, 5⟩)),
    .call 2 (.resolveRange "p" (.backfill "b" 0 (some 9) false)),
    .call 3 (.advanceBackfill "p_b" 8 none)]

/-- A batch with an old link, a new one and a membership that completes the backfill. -/
def call : Call := .commitBatch "p" (.backfill "b" 0 (some 9) false) ⟨9, 9, none⟩
  [.link ⟨"0x1", "0xab", false, 4⟩, .link ⟨"0x1", "0xcd", true, 6⟩,
    .member ⟨"0xcd", "k", "ed25519", none, true, "ed25519", 6⟩]

/-- The ledger after the batch. -/
def after : Ledger := (session.ledger.perform 4 call).2

theorem perform_call :
    session.ledger.perform 4 call = (.ok (.batch ⟨.advanced, 2, 1⟩), after) := by
  have answered : (session.ledger.perform 4 call).1 = .ok (.batch ⟨.advanced, 2, 1⟩) := by
    decide +kernel
  rw [after, ← answered]

theorem count_after : after.counters.count (.identityWritten .accountLinks) =
    session.ledger.counters.count (.identityWritten .accountLinks) + 1 := by
  decide +kernel

/-- The batch has changed one link, and two identity rows in all; and another chain that is refused
afterwards is counted as nothing else. -/
theorem ncard_changed_call :
    (session.ledger.contents.changedRows after.contents .accountLinks).ncard = 1 ∧
    (session.ledger.contents.changedRows after.contents .accountLinks).ncard +
      (session.ledger.contents.changedRows after.contents .memberships).ncard = 2 ∧
    (session.ledger.perform 5 (.verifyChain 2)).2.counters.count (.chainChecked .verified) =
      session.ledger.counters.count (.chainChecked .verified) := by
  obtain ⟨run, failing, answering⟩ := session.counters_reconcile
  obtain ⟨-, written, -⟩ := answering 4 call _ after perform_call
  have performed : session.perform 4 call =
      (some (.ok (.batch ⟨.advanced, 2, 1⟩)), { session with ledger := after }) := by
    have opened : session.isOpen = true := by decide +kernel
    simp only [Session.perform, opened, if_true, perform_call]
  refine ⟨?_, written, ?_⟩
  · have counted := run [.call 4 call] (.identityWritten .accountLinks)
    simp only [Session.run_cons, Session.run_nil, Session.step, Session.growth, Session.stepGrowth,
      performed, Call.growth, count_after] at counted
    omega
  · have refused : (session.ledger.perform 5 (.verifyChain 2)).1 = .error (.chainMismatch 1 2) := by
      decide +kernel
    have failed : session.ledger.perform 5 (.verifyChain 2) = (.error (.chainMismatch 1 2),
        (session.ledger.perform 5 (.verifyChain 2)).2) := by rw [← refused]
    exact failing 5 (.verifyChain 2) _ _ failed (.chainChecked .verified) (by decide)

end CountedBatch

end IngestLedger
