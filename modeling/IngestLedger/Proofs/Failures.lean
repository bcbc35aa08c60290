import IngestLedger.Ledger.Session
import IngestLedger.Proofs.Footprints

/-!
# Calls that fail

A call that is answered with an error has changed nothing: not what the store holds, not the chain
that was verified, not the backfills that were started. What it may have changed is the disk on
which a write broke off and the counter of refused chains. The same call can therefore be made
again, and then does what it would have done in the first place.

Main definitions:

* `Ledger.within`: a ledger whose surroundings have changed.
* `Ledger.SameInside`: ledgers that differ in their surroundings at most.

Main statements:

* `Ledger.perform_error`: a ledger after a failed call.
* `Ledger.retry_of_perform_error`: nothing has changed, and a retry does what the call alone does.
-/

namespace IngestLedger

namespace Ledger

/-- A ledger whose surroundings have changed: the disk, and the calls of the store that fail. -/
def within (ledger : Ledger) (disk : Disk) (faults : Faults) : Ledger :=
  { ledger with backend := { ledger.backend with disk, faults } }

/-- Ledgers that differ in their surroundings at most. -/
def SameInside (before after : Ledger) : Prop :=
  ∀ disk faults, after.within disk faults = before.within disk faults

variable {ledger failed : Ledger} {now : Timestamp} {e : LedgerError}

theorem SameInside.refl (ledger : Ledger) : ledger.SameInside ledger := fun _ _ => rfl

theorem SameInside.unchanged (h : ledger.SameInside failed) :
    failed.contents = ledger.contents ∧ failed.verifiedChain = ledger.verifiedChain ∧
      failed.runs = ledger.runs := by
  have same : failed.within .empty {} = ledger.within .empty {} := h .empty {}
  simp only [within, Ledger.mk.injEq, Backend.mk.injEq] at same
  obtain ⟨⟨contents, -⟩, verifiedChain, runs, -⟩ := same
  exact ⟨contents, verifiedChain, runs⟩

theorem SameInside.counters (h : ledger.SameInside failed) : failed.counters = ledger.counters := by
  have same : failed.within .empty {} = ledger.within .empty {} := h .empty {}
  simp only [within, Ledger.mk.injEq] at same
  exact same.2.2.2.1

/-! ### Operations -/

/-- A transaction that fails changes the disk at most. -/
theorem sameInside_of_transact_error {α : Type} {planned : Except LedgerError (α × Changes)}
    (h : ledger.transact planned = (.error e, failed)) : ledger.SameInside failed := by
  rcases eq_of_transact_error h with rfl | ⟨backend, rfl, contents, home⟩
  · exact .refl failed
  · intro disk faults
    rw [Ledger.contents] at contents
    simp only [within, contents, home]

/-- A backfill is remembered only when it was started. -/
theorem sameInside_of_startOrResume_error {name : String} {run : BackfillRun}
    (h : ledger.startOrResume now name run = (.error e, failed)) : ledger.SameInside failed := by
  rcases startOrResume_cases ledger now name run with
    ⟨plan, after, -, started⟩ | ⟨e', after, refused, started⟩
  · cases (Prod.mk.inj (started.symm.trans h)).1
  · obtain ⟨-, rfl⟩ := Prod.mk.inj (started.symm.trans h)
    exact sameInside_of_transact_error refused

theorem sameInside_of_resolveRange_error {processor : String} {mode : RunMode}
    (h : ledger.resolveRange now processor mode = (.error e, failed)) :
    ledger.SameInside failed := by
  cases mode with
  | live initial =>
    rw [resolveRange_live] at h
    obtain ⟨-, rfl⟩ := Prod.mk.inj h
    exact .refl ledger
  | backfill id initial ending overwrite =>
    have resolved := resolveRange_backfill ledger now processor id ⟨initial, ending, overwrite⟩
    obtain ⟨answer, rfl⟩ := Prod.mk.inj (resolved.symm.trans h)
    cases refused : (ledger.startOrResume now (backfillAlias processor id)
        ⟨initial, ending, overwrite⟩).1 with
    | ok plan =>
      rw [refused] at answer
      cases answer
    | error e' => exact sameInside_of_startOrResume_error (Prod.ext refused rfl)
  | testing start ending => cases (Prod.mk.inj h).1

/-- A chain that is refused because the store belongs to another one is counted. -/
theorem verifyChain_error {chain : ChainId} (h : ledger.verifyChain chain = (.error e, failed)) :
    ledger.SameInside failed ∨ ∃ stored, ledger.chainId = .ok (some stored) ∧ stored ≠ chain ∧
      failed = { ledger with counters := ledger.counters.add [.chainChecked .mismatch] } := by
  rcases verifyChain_cases ledger chain with ⟨e', -, verified⟩ | ⟨-, verified⟩ |
    ⟨stored, read, different, verified⟩ | ⟨after, -, -, verified⟩ |
    ⟨e', after, -, refused, verified⟩
  · obtain ⟨-, rfl⟩ := Prod.mk.inj (verified.symm.trans h)
    exact .inl (.refl ledger)
  · cases (Prod.mk.inj (verified.symm.trans h)).1
  · exact .inr ⟨stored, read, different, (Prod.mk.inj (verified.symm.trans h)).2.symm⟩
  · cases (Prod.mk.inj (verified.symm.trans h)).1
  · obtain ⟨-, rfl⟩ := Prod.mk.inj (verified.symm.trans h)
    exact .inl (sameInside_of_transact_error refused)

/-- The chain of the store is read again, unless reading fails. -/
theorem chainId_within {stored : ChainId} (h : ledger.chainId = .ok (some stored)) (disk : Disk)
    (faults : Faults) : (ledger.within disk faults).chainId =
      match faults.get with
      | some e => .error (.ofStore e)
      | none => .ok (some stored) := by
  have gets : ledger.backend.faults.get = none := by
    cases fault : ledger.backend.faults.get with
    | none => rfl
    | some e => simp [chainId, readRow, Backend.get, fault] at h
  cases fault : faults.get with
  | some e => simp only [chainId, readRow, Backend.get, within, fault]
  | none =>
    have same : (ledger.within disk faults).readRow ChainRow Key.chainBytes =
        ledger.readRow ChainRow Key.chainBytes := by
      simp only [readRow, Backend.get, within, fault, gets]
    rw [← h]
    simp only [chainId, same]

/-- As long as the store belongs to another chain, no surroundings make a chain the right one. -/
theorem verifyChain_within_ne_ok {stored chain : ChainId}
    (h : ledger.chainId = .ok (some stored)) (different : stored ≠ chain) {disk : Disk}
    {faults : Faults} {after : Ledger} :
    (ledger.within disk faults).verifyChain chain ≠ (.ok (), after) := by
  have read := chainId_within h disk faults
  intro answered
  cases fault : faults.get with
  | some e =>
    simp only [fault] at read
    simp only [verifyChain, read] at answered
    cases (Prod.mk.inj answered).1
  | none =>
    simp only [fault] at read
    simp only [verifyChain, read, if_neg different] at answered
    cases (Prod.mk.inj answered).1

/-! ### Calls -/

section Answering

variable {α : Type} {kind : α → Answer} {result : Except LedgerError α × Ledger}

theorem answering_eq_error (h : answering kind result = (.error e, failed)) :
    result = (.error e, failed) := by
  obtain ⟨outcome, after⟩ := result
  cases outcome with
  | ok a => cases (Prod.mk.inj h).1
  | error e' =>
    obtain ⟨same, rfl⟩ := Prod.mk.inj h
    rw [Except.error.inj same]

theorem answering_eq_ok {answer : Answer} {after : Ledger}
    (h : answering kind result = (.ok answer, after)) :
    ∃ a, result = (.ok a, after) ∧ answer = kind a := by
  obtain ⟨outcome, after'⟩ := result
  cases outcome with
  | ok a =>
    obtain ⟨same, rfl⟩ := Prod.mk.inj h
    exact ⟨a, rfl, (Except.ok.inj same).symm⟩
  | error e' => cases (Prod.mk.inj h).1

end Answering

/-- A failed call changes the disk at most, unless it is about a chain that is refused. -/
theorem perform_error {call : Call} (h : ledger.perform now call = (.error e, failed)) :
    ledger.SameInside failed ∨ ∃ chain stored, call = .verifyChain chain ∧
      ledger.chainId = .ok (some stored) ∧ stored ≠ chain ∧
      failed = { ledger with counters := ledger.counters.add [.chainChecked .mismatch] } := by
  cases call with
  | verifyChain chain =>
    refine (verifyChain_error (answering_eq_error h)).imp_right ?_
    rintro ⟨stored, read, different, counted⟩
    exact ⟨chain, stored, rfl, read, different, counted⟩
  | startOrResume name run => exact .inl (sameInside_of_startOrResume_error (answering_eq_error h))
  | resolveRange processor mode =>
    exact .inl (sameInside_of_resolveRange_error (answering_eq_error h))
  | advance processor version time =>
    exact .inl (sameInside_of_transact_error (answering_eq_error h))
  | advanceBackfill name version time =>
    exact .inl (sameInside_of_transact_error (answering_eq_error h))
  | apply event => exact .inl (sameInside_of_transact_error (answering_eq_error h))
  | commitBatch processor mode batch events =>
    exact .inl (sameInside_of_transact_error (answering_eq_error h))

theorem contents_of_perform_error {call : Call} (h : ledger.perform now call = (.error e, failed)) :
    failed.contents = ledger.contents := by
  rcases perform_error h with same | ⟨chain, stored, -, -, -, counted⟩
  · exact same.unchanged.1
  · rw [counted]
    rfl

/-- A failed call has changed neither the contents of the store, whatever they are, nor the verified
chain, nor the backfills that were started. When it is made again and answered, in whatever
surroundings and at whatever time, the answer and the ledger afterwards are those of the second call
alone. -/
theorem retry_of_perform_error {call : Call}
    (h : ledger.perform now call = (.error e, failed)) :
    (failed.contents = ledger.contents ∧ failed.verifiedChain = ledger.verifiedChain ∧
      failed.runs = ledger.runs) ∧
    ∀ disk faults later answer after,
      (failed.within disk faults).perform later call = (.ok answer, after) →
        (ledger.within disk faults).perform later call = (.ok answer, after) := by
  rcases perform_error h with same | ⟨chain, stored, rfl, read, different, counted⟩
  · refine ⟨same.unchanged, fun disk faults later answer after retried => ?_⟩
    rw [← same disk faults]
    exact retried
  · have again : failed.chainId = .ok (some stored) := by
      rw [counted]
      exact read
    refine ⟨by rw [counted]; exact ⟨rfl, rfl, rfl⟩,
      fun disk faults later answer after retried => ?_⟩
    -- the refused chain would be refused again
    obtain ⟨_, answered, -⟩ := answering_eq_ok retried
    exact absurd answered (verifyChain_within_ne_ok again different)

end Ledger

/-! ### Calls of a session -/

namespace Session

variable {session after : Session} {now : Timestamp} {call : Call}

theorem perform_ok {answer : Answer} (h : session.perform now call = (some (.ok answer), after)) :
    session.ledger.perform now call = (.ok answer, after.ledger) := by
  unfold perform at h
  split at h
  · obtain ⟨answered, rfl⟩ := Prod.mk.inj h
    exact Prod.ext (Option.some.inj answered) rfl
  · cases (Prod.mk.inj h).1

/-- A call that is not answered leaves the contents as they were. -/
theorem contents_of_perform {result : Option (Except LedgerError Answer)}
    (h : session.perform now call = (result, after))
    (refused : ∀ answer, result ≠ some (.ok answer)) :
    after.ledger.contents = session.ledger.contents := by
  unfold perform at h
  split at h
  · obtain ⟨answered, rfl⟩ := Prod.mk.inj h
    cases failed : (session.ledger.perform now call).1 with
    | ok answer => exact absurd (answered.symm.trans (congrArg some failed)) (refused answer)
    | error e => exact Ledger.contents_of_perform_error (Prod.ext failed rfl)
  · obtain ⟨-, rfl⟩ := Prod.mk.inj h
    rfl

end Session

/-! ### A batch that finds no room -/

namespace FullStore

/-- A ledger that has verified its chain over a store that takes nothing more. -/
def ledger : Ledger :=
  { Ledger.fresh { faults := { write := some (.io "no space left") } } .zero with
    verifiedChain := some 1 }

/-- A batch with one link. -/
def call : Call :=
  .commitBatch "p" (.live 0) ⟨0, 5, none⟩ [.link ⟨"0x1", "0xab", true, 3⟩]

theorem perform_call :
    (ledger.perform 1 call).1 = .error (.ofStore (.io "no space left")) := by decide +kernel

/-- When there is room again, the batch is committed as if it had not been tried before. -/
theorem retry_call : ∃ answer after,
    ((ledger.perform 1 call).2.within .empty {}).perform 2 call = (.ok answer, after) ∧
      (ledger.within .empty {}).perform 2 call = (.ok answer, after) := by
  have failed : ledger.perform 1 call =
      (.error (.ofStore (.io "no space left")), (ledger.perform 1 call).2) :=
    Prod.ext perform_call rfl
  have answered : (((ledger.perform 1 call).2.within .empty {}).perform 2 call).1 =
      .ok (.batch ⟨.advanced, 1, 0⟩) := by decide +kernel
  exact ⟨_, _, Prod.ext answered rfl,
    (Ledger.retry_of_perform_error failed).2 _ _ _ _ _ (Prod.ext answered rfl)⟩

end FullStore

end IngestLedger
