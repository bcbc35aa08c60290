import IngestLedger.Proofs.Calls
import IngestLedger.Proofs.Failures

/-!
# Plans of calls

A call that is answered has carried out one plan: the entries of the plan are in the store, what the
plan counts is counted, and the answer is the planned one.

Main definitions:

* `Ledger.plan`: what a call answers and changes.
* `Ledger.CarriesOut`: the changes of a plan have been made.

Main statements:

* `Ledger.perform_ok`: an answered call has carried out its plan.
-/

namespace IngestLedger

namespace Ledger

variable {ledger after : Ledger} {now : Timestamp} {call : Call} {answer : Answer}
  {changes : Changes}

/-! ### Carrying out a plan -/

/-- A plan whose answer is given in another form. -/
def planAnswering {α β : Type} (kind : α → β) (planned : Except LedgerError (α × Changes)) :
    Except LedgerError (β × Changes) := planned.map (Prod.map kind id)

theorem planAnswering_eq_ok_iff {α β : Type} {kind : α → β} {b : β}
    {planned : Except LedgerError (α × Changes)} :
    planAnswering kind planned = .ok (b, changes) ↔
      ∃ a, planned = .ok (a, changes) ∧ b = kind a := by
  cases planned with
  | error e => simp [planAnswering, Except.map]
  | ok both =>
    obtain ⟨a, planned⟩ := both
    simp only [planAnswering, Except.map, Prod.map, id, Except.ok.injEq, Prod.mk.injEq]
    constructor
    · rintro ⟨rfl, rfl⟩
      exact ⟨a, ⟨rfl, rfl⟩, rfl⟩
    · rintro ⟨a, ⟨rfl, rfl⟩, rfl⟩
      exact ⟨rfl, rfl⟩

/-- The entries of some changes were written, and what they count was counted. -/
structure CarriesOut (before : Ledger) (changes : Changes) (after : Ledger) : Prop where
  contents : after.contents = before.contents.insertAll changes.entries
  counters : after.counters = before.counters.add changes.counted

theorem CarriesOut.nothing (ledger : Ledger) : ledger.CarriesOut .nothing ledger := ⟨rfl, rfl⟩

theorem carriesOut_of_transact {α : Type} {planned : Except LedgerError (α × Changes)} {a : α}
    (h : ledger.transact planned = (.ok a, after)) :
    ∃ changes, planned = .ok (a, changes) ∧ ledger.CarriesOut changes after := by
  obtain ⟨changes, hplanned, contents, -⟩ := transact_ok h
  refine ⟨changes, hplanned, contents, ?_⟩
  rcases transact_cases ledger planned with ⟨e, -, result⟩ |
    ⟨a', changes', hplanned', -, result⟩ | ⟨a', changes', backend, hplanned', -, -, result⟩ |
    ⟨a', changes', e, backend, -, -, -, result⟩
  · cases (Prod.mk.inj (result.symm.trans h)).1
  · obtain ⟨-, rfl⟩ := Prod.mk.inj (Except.ok.inj (hplanned.symm.trans hplanned'))
    rw [← (Prod.mk.inj (result.symm.trans h)).2]
  · obtain ⟨-, rfl⟩ := Prod.mk.inj (Except.ok.inj (hplanned.symm.trans hplanned'))
    rw [← (Prod.mk.inj (result.symm.trans h)).2]
  · cases (Prod.mk.inj (result.symm.trans h)).1

theorem carriesOut_of_answering {α : Type} {kind : α → Answer}
    {planned : Except LedgerError (α × Changes)}
    (h : answering kind (ledger.transact planned) = (.ok answer, after)) :
    ∃ changes, planAnswering kind planned = .ok (answer, changes) ∧
      ledger.CarriesOut changes after := by
  obtain ⟨a, transacted, rfl⟩ := answering_eq_ok h
  obtain ⟨changes, hplanned, carried⟩ := carriesOut_of_transact transacted
  exact ⟨changes, planAnswering_eq_ok_iff.2 ⟨a, hplanned, rfl⟩, carried⟩

/-! ### The plan of a call -/

/-- What verifying a chain changes. -/
def planVerify (ledger : Ledger) (chain : ChainId) : Except LedgerError (Unit × Changes) :=
  match ledger.chainId with
  | .error e => .error e
  | .ok (some stored) =>
    if stored = chain then .ok ((), .count (.chainChecked .verified))
    else .error (.chainMismatch stored chain)
  | .ok none => planChain chain

/-- What resolving a range changes: the row of a backfill that begins anew. -/
def planRange (ledger : Ledger) (now : Timestamp) (processor : String) :
    RunMode → Except LedgerError (VersionRange × Changes)
  | .live initial =>
    (ledger.resumeVersion processor initial).map fun first => (.onward first, .nothing)
  | .backfill backfill initial ending overwrite =>
    planAnswering BackfillPlan.range
      (ledger.planStart now (backfillAlias processor backfill) ⟨initial, ending, overwrite⟩)
  | .testing start ending => .ok (.between start (ending.getD start), .nothing)

/-- What a call answers and changes. -/
def plan (ledger : Ledger) (now : Timestamp) : Call → Except LedgerError (Answer × Changes)
  | .verifyChain chain => planAnswering (fun _ => .done) (ledger.planVerify chain)
  | .advance processor version time => planAnswering .advance do
    let _ ← ledger.ensureVerified
    ledger.planAdvance now processor version time
  | .startOrResume name run => planAnswering .plan (ledger.planStart now name run)
  | .advanceBackfill name version time => planAnswering .advance do
    let _ ← ledger.ensureVerified
    ledger.planBackfillAdvance now name version time
  | .apply event => planAnswering .apply do
    let _ ← ledger.ensureVerified
    ledger.planEvent event
  | .resolveRange processor mode => planAnswering .range (ledger.planRange now processor mode)
  | .commitBatch processor mode batch events => planAnswering .batch do
    let _ ← ledger.ensureVerified
    ledger.planBatch now processor mode batch events

theorem carriesOut_of_verifyChain {chain : ChainId}
    (h : ledger.verifyChain chain = (.ok (), after)) :
    ∃ changes, ledger.planVerify chain = .ok ((), changes) ∧ ledger.CarriesOut changes after := by
  unfold planVerify
  rcases verifyChain_cases ledger chain with ⟨e, -, verified⟩ | ⟨read, verified⟩ |
    ⟨stored, -, -, verified⟩ | ⟨recorded, read, transacted, verified⟩ |
    ⟨e, failed, -, -, verified⟩
  · cases (Prod.mk.inj (verified.symm.trans h)).1
  · obtain ⟨-, rfl⟩ := Prod.mk.inj (verified.symm.trans h)
    exact ⟨_, by rw [read]; exact if_pos rfl, rfl, rfl⟩
  · cases (Prod.mk.inj (verified.symm.trans h)).1
  · obtain ⟨-, rfl⟩ := Prod.mk.inj (verified.symm.trans h)
    obtain ⟨changes, planned, carried⟩ := carriesOut_of_transact transacted
    exact ⟨changes, by rw [read]; exact planned, carried.contents, carried.counters⟩
  · cases (Prod.mk.inj (verified.symm.trans h)).1

theorem carriesOut_of_startOrResume {name : String} {run : BackfillRun} {plan : BackfillPlan}
    (h : ledger.startOrResume now name run = (.ok plan, after)) :
    ∃ changes, ledger.planStart now name run = .ok (plan, changes) ∧
      ledger.CarriesOut changes after := by
  rcases startOrResume_cases ledger now name run with
    ⟨plan', written, transacted, started⟩ | ⟨e, failed, -, started⟩
  · obtain ⟨same, rfl⟩ := Prod.mk.inj (started.symm.trans h)
    obtain rfl := Except.ok.inj same
    obtain ⟨changes, planned, carried⟩ := carriesOut_of_transact transacted
    exact ⟨changes, planned, carried.contents, carried.counters⟩
  · cases (Prod.mk.inj (started.symm.trans h)).1

theorem carriesOut_of_resolveRange {processor : String} {mode : RunMode} {range : VersionRange}
    (h : ledger.resolveRange now processor mode = (.ok range, after)) :
    ∃ changes, ledger.planRange now processor mode = .ok (range, changes) ∧
      ledger.CarriesOut changes after := by
  cases mode with
  | live initial =>
    rw [resolveRange_live] at h
    obtain ⟨resumed, rfl⟩ := Prod.mk.inj h
    refine ⟨.nothing, ?_, .nothing ledger⟩
    simp only [planRange]
    cases first : ledger.resumeVersion processor initial with
    | error e => rw [first] at resumed; cases resumed
    | ok version =>
      rw [first] at resumed
      rw [← Except.ok.inj resumed]
      rfl
  | backfill id initial ending overwrite =>
    have resolved := resolveRange_backfill ledger now processor id ⟨initial, ending, overwrite⟩
    obtain ⟨answered, rfl⟩ := Prod.mk.inj (resolved.symm.trans h)
    cases started : (ledger.startOrResume now (backfillAlias processor id)
        ⟨initial, ending, overwrite⟩).1 with
    | error e => rw [started] at answered; cases answered
    | ok plan =>
      rw [started] at answered
      obtain ⟨changes, planned, carried⟩ := carriesOut_of_startOrResume (Prod.ext started rfl)
      exact ⟨changes, planAnswering_eq_ok_iff.2 ⟨plan, planned, (Except.ok.inj answered).symm⟩,
        carried⟩
  | testing start ending =>
    obtain ⟨same, rfl⟩ := Prod.mk.inj h
    exact ⟨.nothing, by rw [planRange, Except.ok.inj same], .nothing ledger⟩

/-- A call that is answered has carried out its plan. -/
theorem perform_ok (h : ledger.perform now call = (.ok answer, after)) :
    ∃ changes, ledger.plan now call = .ok (answer, changes) ∧
      ledger.CarriesOut changes after := by
  cases call with
  | verifyChain chain =>
    obtain ⟨_, verified, rfl⟩ := answering_eq_ok h
    obtain ⟨changes, planned, carried⟩ := carriesOut_of_verifyChain verified
    exact ⟨changes, planAnswering_eq_ok_iff.2 ⟨(), planned, rfl⟩, carried⟩
  | advance processor version time => exact carriesOut_of_answering h
  | startOrResume name run =>
    obtain ⟨plan, started, rfl⟩ := answering_eq_ok h
    obtain ⟨changes, planned, carried⟩ := carriesOut_of_startOrResume started
    exact ⟨changes, planAnswering_eq_ok_iff.2 ⟨plan, planned, rfl⟩, carried⟩
  | advanceBackfill name version time => exact carriesOut_of_answering h
  | apply event => exact carriesOut_of_answering h
  | resolveRange processor mode =>
    obtain ⟨range, resolved, rfl⟩ := answering_eq_ok h
    obtain ⟨changes, planned, carried⟩ := carriesOut_of_resolveRange resolved
    exact ⟨changes, planAnswering_eq_ok_iff.2 ⟨range, planned, rfl⟩, carried⟩
  | commitBatch processor mode batch events => exact carriesOut_of_answering h

end Ledger

end IngestLedger
