import IngestLedger.Proofs.Histories

/-!
# Committing a batch and applying its events one by one

What a committed batch does at once can also be done by single calls: one that moves the progress
row of the mode, and one for each event. The single calls keep the first of the events of the
greatest version for a row, the batch keeps the last.

Main definitions:

* `singleCalls`: the single calls of a batch.
* `Ledger.performAll`: the ledger after calls that are all answered.

Main statements:

* `Life.commitBatch_eq_singleCalls_iff`: when the batch and the single calls end with the same
  store.
-/

namespace IngestLedger

/-- The calls that move the progress row of a mode. -/
def RunMode.progressCalls (mode : RunMode) (processor : String) (batch : BatchInfo) : List Call :=
  match mode with
  | .live _ => [.advance processor batch.last batch.timestamp]
  | .backfill id .. => [.advanceBackfill (backfillAlias processor id) batch.last batch.timestamp]
  | .testing .. => []

/-- The calls that do one by one what committing a batch does at once. -/
def singleCalls (processor : String) (mode : RunMode) (batch : BatchInfo)
    (events : List IdentityEvent) : List Call :=
  mode.progressCalls processor batch ++ events.map .apply

namespace Ledger

/-- The ledger after calls at one time, if all of them are answered. -/
def performAll (ledger : Ledger) (now : Timestamp) : List Call → Option Ledger
  | [] => some ledger
  | call :: calls =>
    match ledger.perform now call with
    | (.ok _, after) => after.performAll now calls
    | (.error _, _) => none

variable {ledger after : Ledger} {facts : Facts} {now : Timestamp} {processor : String}
  {mode : RunMode} {batch : BatchInfo} {events : List IdentityEvent}

theorem performAll_append (ledger : Ledger) (now : Timestamp) (calls others : List Call) :
    ledger.performAll now (calls ++ others) =
      (ledger.performAll now calls).bind fun after => after.performAll now others := by
  induction calls generalizing ledger with
  | nil => rfl
  | cons call calls ih =>
    simp only [List.cons_append, performAll]
    split
    · exact ih _
    · rfl

/-- One call that is answered, and then the others. -/
theorem performAll_cons_eq_some_iff {α : Type} {call : Call} {calls : List Call}
    {answer : α → Answer} {result : Except LedgerError α × Ledger}
    (performed : ledger.perform now call = answering answer result) :
    ledger.performAll now (call :: calls) = some after ↔
      ∃ given between, result = (.ok given, between) ∧
        between.performAll now calls = some after := by
  obtain ⟨found, between⟩ := result
  simp only [performAll, performed]
  cases found with
  | error e => simp [answering, Except.map]
  | ok given => simp [answering, Except.map]

/-! ### Changes that need a verified chain -/

section Verified

variable {α : Type} {planned : Except LedgerError (α × Changes)} {answer : α} {changes : Changes}

theorem transact_verified_ok
    (result : ledger.transact (do let _ ← ledger.ensureVerified; planned) = (.ok answer, after)) :
    ∃ changes, planned = .ok (answer, changes) ∧
      after.contents = ledger.contents.insertAll changes.entries ∧ ledger.SameAround after := by
  obtain ⟨changes, verified, contents, -⟩ := transact_ok result
  obtain ⟨-, -, hplanned⟩ := bind_eq_ok_iff.1 verified
  have around := sameAround_transact ledger (do let _ ← ledger.ensureVerified; planned)
  rw [result] at around
  exact ⟨changes, hplanned, contents, around⟩

theorem exists_transact_verified (verified : ledger.verifiedChain.isSome)
    (hplanned : planned = .ok (answer, changes)) (takes : changes.entries = [] ∨
      ∃ backend, ledger.backend.write changes.entries = (.ok (), backend)) :
    ∃ after, ledger.transact (do let _ ← ledger.ensureVerified; planned) = (.ok answer, after) := by
  obtain ⟨chain, hchain⟩ := Option.isSome_iff_exists.1 verified
  refine transact_ok_of_planned ?_ takes
  rw [ensureVerified_eq_ok_iff.2 hchain]
  exact hplanned

end Verified

/-! ### The progress row -/

section OneCall

variable {α : Type} {call : Call} {answer : α → Answer} {plan : Except LedgerError (α × Changes)}
  {moved : α} {progress : Changes}
  (performed : ledger.perform now call =
    answering answer (ledger.transact (do let _ ← ledger.ensureVerified; plan)))
  (hplan : plan = .ok (moved, progress))

include performed hplan

/-- A single call that needs a verified chain does what was planned for it. -/
theorem performAll_verified (all : ledger.performAll now [call] = some after) :
    after.contents = ledger.contents.insertAll progress.entries ∧ ledger.SameAround after := by
  obtain ⟨given, between, result, last⟩ := (performAll_cons_eq_some_iff performed).1 all
  obtain ⟨changes, hchanges, kept⟩ := transact_verified_ok result
  obtain ⟨-, rfl⟩ := Prod.mk.inj (Except.ok.inj (hchanges.symm.trans hplan))
  exact Option.some.inj last ▸ kept

theorem exists_performAll_verified (verified : ledger.verifiedChain.isSome)
    (takes : progress.entries = [] ∨
      ∃ backend, ledger.backend.write progress.entries = (.ok (), backend)) :
    ∃ after, ledger.performAll now [call] = some after := by
  obtain ⟨after, result⟩ := exists_transact_verified verified hplan takes
  exact ⟨after, (performAll_cons_eq_some_iff performed).2 ⟨moved, after, result, rfl⟩⟩

end OneCall

/-- The progress calls of a mode do to the store what its batches do to their progress row. -/
theorem performAll_progressCalls {outcome : CheckpointOutcome} {progress : Changes}
    (planned : ledger.planCheckpoint now processor batch mode = .ok (outcome, progress))
    (all : ledger.performAll now (mode.progressCalls processor batch) = some after) :
    after.contents = ledger.contents.insertAll progress.entries ∧ ledger.SameAround after := by
  rcases planCheckpoint_cases planned with ⟨initial, moved, rfl, advancing, rfl⟩ |
    ⟨id, initial, ending, overwrite, moved, rfl, advancing, rfl⟩ | ⟨start, ending, rfl, rfl, rfl⟩
  · exact performAll_verified rfl advancing all
  · exact performAll_verified rfl advancing all
  · exact Option.some.inj all ▸ ⟨rfl, .refl ledger⟩

theorem exists_performAll_progressCalls (verified : ledger.verifiedChain.isSome)
    {outcome : CheckpointOutcome} {progress : Changes}
    (planned : ledger.planCheckpoint now processor batch mode = .ok (outcome, progress))
    (takes : progress.entries = [] ∨
      ∃ backend, ledger.backend.write progress.entries = (.ok (), backend)) :
    ∃ after, ledger.performAll now (mode.progressCalls processor batch) = some after := by
  rcases planCheckpoint_cases planned with ⟨initial, moved, rfl, advancing, rfl⟩ |
    ⟨id, initial, ending, overwrite, moved, rfl, advancing, rfl⟩ | ⟨start, ending, rfl, rfl, rfl⟩
  · exact exists_performAll_verified rfl advancing verified takes
  · exact exists_performAll_verified rfl advancing verified takes
  · exact ⟨ledger, rfl⟩

/-! ### The events -/

/-- Events that are applied one by one supersede the facts one by one, and nothing else changes. -/
theorem performAll_apply (h : ledger.contents.Represents facts)
    (all : ledger.performAll now (events.map .apply) = some after) :
    after.contents.Represents (facts.supersedeAll events) ∧
      ∀ bytes, ¬ IsIdentityKey bytes → after.contents.get? bytes = ledger.contents.get? bytes := by
  induction events generalizing ledger facts with
  | nil => exact Option.some.inj all ▸ ⟨h, fun _ _ => rfl⟩
  | cons event events ih =>
    obtain ⟨outcome, between, result, rest⟩ := (performAll_cons_eq_some_iff rfl).1 all
    obtain ⟨changes, planned, contents, -⟩ := transact_verified_ok result
    obtain ⟨represents, others⟩ := ih (represents_apply h result) rest
    refine ⟨represents, fun bytes outside => ?_⟩
    rw [others bytes outside, contents]
    refine Store.get?_insertAll_of_forall_ne (fun e he same => outside ?_) _
    rw [← same]
    exact isIdentityKey_of_planEvent planned e he

/-- Events can be applied one by one over a store in memory that can be read, and written unless all
of them are stale. -/
theorem exists_performAll_apply (h : ledger.contents.Represents facts)
    (verified : ledger.verifiedChain.isSome) (memory : ledger.backend.home = none)
    (reads : ledger.backend.faults.get = none)
    (writes : ledger.backend.faults.write = none ∨
      ∀ event ∈ events, ∃ old, facts event.key = some old ∧ event.version ≤ old.version)
    (storable : ∀ event ∈ events, event.IsStorable) :
    ∃ after, ledger.performAll now (events.map .apply) = some after := by
  induction events generalizing ledger facts with
  | nil => exact ⟨ledger, rfl⟩
  | cons event events ih =>
    obtain ⟨outcome, changes, planned⟩ :=
      exists_planEvent h reads (storable event List.mem_cons_self)
    have takes : changes.entries = [] ∨
        ∃ backend, ledger.backend.write changes.entries = (.ok (), backend) := by
      rcases writes with works | stale
      · exact .inr (Backend.exists_write_ok memory works _)
      · obtain ⟨old, fact, le⟩ := stale event List.mem_cons_self
        rcases planEvent_ok h planned with ⟨-, rfl, -⟩ | ⟨-, fresh, -⟩
        · exact .inl rfl
        · exact absurd le (UInt64.not_le.2 (fresh old fact))
    obtain ⟨between, result⟩ := exists_transact_verified verified planned takes
    obtain ⟨-, -, -, around⟩ := transact_verified_ok result
    -- a stale event leaves the facts as they were, so the others are stale still
    have rest : between.backend.faults.write = none ∨ ∀ other ∈ events, ∃ old,
        facts.supersede event other.key = some old ∧ other.version ≤ old.version := by
      rw [around.faults]
      refine writes.imp_right fun stale other member => ?_
      obtain ⟨old, fact, le⟩ := stale event List.mem_cons_self
      rw [Facts.supersede_of_stale fact le]
      exact stale other (List.mem_cons_of_mem _ member)
    obtain ⟨after, all⟩ := ih (represents_apply h result) (around.verifiedChain ▸ verified)
      (around.home.trans memory) (around.faults ▸ reads) rest
      fun e he => storable e (List.mem_cons_of_mem _ he)
    exact ⟨after, (performAll_cons_eq_some_iff rfl).2 ⟨outcome, between, result, all⟩⟩

/-! ### A batch and its single calls -/

variable {outcome : BatchOutcome}

/-- A committed batch writes, unless each of its events is stale. -/
theorem writes_of_commitBatch (h : ledger.contents.Represents facts)
    (committed : ledger.commitBatch now processor mode batch events = (.ok outcome, after)) :
    ledger.backend.faults.write = none ∨
      ∀ event ∈ events, ∃ old, facts event.key = some old ∧ event.version ≤ old.version := by
  obtain ⟨-, progress, rest, -, hrest, -, writes⟩ := commitBatch_ok committed
  by_cases nothing : progress.entries ++ rest.entries = []
  · refine .inr fun event member => ?_
    rcases forall_ne_or_exists_isPicked isTieRule_last events event.key with none | found
    · exact absurd rfl (none event member)
    · obtain ⟨top, htop, row⟩ := found
      obtain ⟨old, fact, le⟩ := stale_of_planEvents h hrest (List.append_eq_nil_iff.1 nothing).2
        top (mem_coalesce_iff.2 htop)
      have most := htop.version_le isTieRule_last member row.symm
      exact ⟨old, row ▸ fact, UInt64.le_trans most le⟩
  · exact .inl (writes nothing)

/-- The single calls of a committed batch are all answered over a store in memory. -/
theorem exists_performAll_singleCalls (h : ledger.contents.Represents facts)
    (committed : ledger.commitBatch now processor mode batch events = (.ok outcome, after))
    (memory : ledger.backend.home = none) (storable : ∀ event ∈ events, event.IsStorable) :
    ∃ single, ledger.performAll now (singleCalls processor mode batch events) = some single := by
  obtain ⟨verified, progress, rest, hprogress, hrest, -, writes⟩ := commitBatch_ok committed
  have takes : progress.entries = [] ∨
      ∃ backend, ledger.backend.write progress.entries = (.ok (), backend) := by
    by_cases nothing : progress.entries = []
    · exact .inl nothing
    · have works := writes fun whole => nothing (List.append_eq_nil_iff.1 whole).1
      exact .inr (Backend.exists_write_ok memory works _)
  obtain ⟨between, moved⟩ := exists_performAll_progressCalls verified hprogress takes
  obtain ⟨contents, around⟩ := performAll_progressCalls hprogress moved
  simp only [singleCalls, performAll_append, moved, Option.bind_some]
  by_cases none : events = []
  · subst none
    exact ⟨between, rfl⟩
  · have represents : between.contents.Represents facts := by
      rw [contents]
      exact h.insertAll_foreign (isForeign_of_planCheckpoint hprogress)
    refine exists_performAll_apply represents (around.verifiedChain ▸ verified)
      (around.home.trans memory) ?_ ?_ storable
    · rw [around.faults]
      exact reads_of_planEvents h (coalesce_ne_nil none) hrest
    · rw [around.faults]
      exact writes_of_commitBatch h committed

/-- The single calls of a committed batch supersede the facts one by one, and do to the other tables
what the batch does. -/
theorem performAll_singleCalls (h : ledger.contents.Represents facts)
    (committed : ledger.commitBatch now processor mode batch events = (.ok outcome, after))
    {single : Ledger}
    (all : ledger.performAll now (singleCalls processor mode batch events) = some single) :
    single.contents.Represents (facts.supersedeAll events) ∧
      ∀ bytes, ¬ IsIdentityKey bytes → after.contents.get? bytes = single.contents.get? bytes := by
  obtain ⟨-, progress, rest, hprogress, hrest, contents, -⟩ := commitBatch_ok committed
  rw [singleCalls, performAll_append, Option.bind_eq_some_iff] at all
  obtain ⟨between, moved, all⟩ := all
  obtain ⟨contents', -⟩ := performAll_progressCalls hprogress moved
  have represents : between.contents.Represents facts := by
    rw [contents']
    exact h.insertAll_foreign (isForeign_of_planCheckpoint hprogress)
  obtain ⟨one_by_one, kept⟩ := performAll_apply represents all
  refine ⟨one_by_one, fun bytes outside => ?_⟩
  rw [kept bytes outside, contents', contents]
  refine Store.get?_insertAll_of_forall_ne (fun e he same => outside ?_) _
  rw [← same]
  exact isIdentityKey_of_planEvents hrest e he

end Ledger

/-- A committed batch can be done by single calls, over a store in memory; and wherever the single
calls are answered, they end with the store of the batch exactly when, for each row with an event
that is newer than the stored one, the first and the last of its newest events are the same. -/
theorem Life.commitBatch_eq_singleCalls_iff (life : Life) {now : Timestamp} {processor : String}
    {mode : RunMode} {batch : BatchInfo} {events : List IdentityEvent} {outcome : BatchOutcome}
    {after : Ledger}
    (committed : life.ledger.commitBatch now processor mode batch events = (.ok outcome, after)) :
    (life.ledger.backend.home = none → (∀ event ∈ events, event.IsStorable) →
      ∃ single, life.ledger.performAll now (singleCalls processor mode batch events) =
        some single) ∧
    ∀ single, life.ledger.performAll now (singleCalls processor mode batch events) = some single →
      (after.contents = single.contents ↔
        ∀ first last, IsFirstNewest events first → IsLastNewest events last →
          first.key = last.key →
          (∀ old, life.ledger.contents.Holds old → old.key = first.key →
            old.version < first.version) → first = last) := by
  obtain ⟨facts, h, -⟩ := life.exists_represents
  refine ⟨Ledger.exists_performAll_singleCalls h committed, fun single all => ?_⟩
  have at_once := Ledger.represents_commitBatch h committed
  obtain ⟨one_by_one, others⟩ := Ledger.performAll_singleCalls h committed all
  rw [at_once.eq_iff one_by_one others, Facts.supersedeAll_coalesce_eq_iff]
  simp only [h.fact_iff, and_imp]

/-! ### Two links of one version -/

namespace TieExample

/-- A link that comes into use, and the same link going out of use in the same transaction. -/
def comes : IdentityEvent := .link ⟨"0x1", "0xab", true, 5⟩

def goes : IdentityEvent := .link ⟨"0x1", "0xab", false, 5⟩

/-- A ledger that has only verified its chain. -/
def life : Life := .inMemory [.call 0 (.verifyChain 1)]

theorem delivered_life : life.delivered = [] := by decide +kernel

/-- What committing both events at once does. -/
def committed : Except LedgerError BatchOutcome × Ledger :=
  life.ledger.commitBatch 1 "p" (.live 0) ⟨0, 5, none⟩ [comes, goes]

/-- The batch keeps the last event and the single calls keep the first. -/
theorem commitBatch_ne_singleCalls : ∃ single,
    life.ledger.performAll 1 (singleCalls "p" (.live 0) ⟨0, 5, none⟩ [comes, goes]) =
      some single ∧ committed.2.contents ≠ single.contents := by
  have answer : committed.1 = .ok ⟨.advanced, 1, 0⟩ := by decide +kernel
  obtain ⟨exist, agree⟩ := life.commitBatch_eq_singleCalls_iff (Prod.ext answer rfl)
  obtain ⟨single, all⟩ := exist rfl (by decide +kernel)
  refine ⟨single, all, fun same => ?_⟩
  have tie := (agree single all).1 same comes goes ⟨[], [goes], rfl, by decide, by decide⟩
    ⟨[comes], [], rfl, by decide, by decide⟩ rfl fun old holds =>
      absurd (Life.mem_delivered_of_holds holds) (by rw [delivered_life]; exact List.not_mem_nil)
  exact absurd tie (by decide)

end TieExample

end IngestLedger
