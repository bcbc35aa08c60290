import IngestLedger.Ledger.Basic
import IngestLedger.Proofs.Store

/-!
# What writing changes does

An operation plans its changes and then writes them as one batch. An answer means that the whole
batch is in the store, an error that nothing of it is; what a ledger holds besides is not touched
by either.

Main statements:

* `Ledger.transact_cases`: everything that a transaction can come to.
* `Ledger.transact_ok`, `Ledger.eq_of_transact_error`: what an answer means, and what an error.
* `Ledger.sameAround_transact`, `Ledger.transact_preserves`: what stays.
* `Ledger.transact_ok_of_planned`: what was planned is answered, in a store that takes the write.
-/

namespace IngestLedger

theorem bind_eq_ok_iff {ε α β : Type} {x : Except ε α} {f : α → Except ε β} {b : β} :
    (x >>= f) = .ok b ↔ ∃ a, x = .ok a ∧ f a = .ok b := by
  cases x with
  | error e => simp [bind, Except.bind]
  | ok a => simp [bind, Except.bind]

theorem bind_eq_error_iff {ε α β : Type} {x : Except ε α} {f : α → Except ε β} {e : ε} :
    (x >>= f) = .error e ↔ x = .error e ∨ ∃ a, x = .ok a ∧ f a = .error e := by
  cases x with
  | error e => simp [bind, Except.bind]
  | ok a => simp [bind, Except.bind]

/-- What follows a step matters only when the step is answered. -/
theorem bind_congr_of_ok {ε α β : Type} {x : Except ε α} {f g : α → Except ε β}
    (h : ∀ a, x = .ok a → f a = g a) : (x >>= f) = (x >>= g) := by
  cases x with
  | error e => rfl
  | ok a => exact h a rfl

/-- A store none of whose calls fail. -/
structure Backend.Works (backend : Backend) : Prop where
  gets : backend.faults.get = none
  scans : backend.faults.scan = none
  writes : ∀ batch, ∃ after, backend.write batch = (.ok (), after)

/-- A store in memory takes every batch unless its writes fail. -/
theorem Backend.exists_write_ok {backend : Backend} (memory : backend.home = none)
    (works : backend.faults.write = none) (batch : List Entry) :
    ∃ after, backend.write batch = (.ok (), after) := by
  simp only [write, overwrite, works, memory]
  exact ⟨_, rfl⟩

namespace Ledger

theorem keyBytes_eq_ok_iff {key : Key} {bytes : Bytes} :
    keyBytes key = .ok bytes ↔ key.bytes = .ok bytes := by
  unfold keyBytes
  cases key.bytes with
  | error fault => simp
  | ok bytes => simp

theorem familyBytes_eq_ok_iff {family : Family} {bytes : Bytes} :
    familyBytes family = .ok bytes ↔ family.bytes = .ok bytes := by
  unfold familyBytes
  cases family.bytes with
  | error fault => simp
  | ok bytes => simp

theorem ensureVerified_eq_ok_iff {ledger : Ledger} {chain : ChainId} :
    ledger.ensureVerified = .ok chain ↔ ledger.verifiedChain = some chain := by
  unfold ensureVerified
  cases ledger.verifiedChain with
  | none => simp
  | some chain => simp

/-- Two ledgers over one store, which may differ in its contents, in what was counted and in what
was written. -/
structure SameAround (before after : Ledger) : Prop where
  home : after.backend.home = before.backend.home
  faults : after.backend.faults = before.backend.faults
  verifiedChain : after.verifiedChain = before.verifiedChain
  runs : after.runs = before.runs

theorem SameAround.refl (ledger : Ledger) : ledger.SameAround ledger := ⟨rfl, rfl, rfl, rfl⟩

variable {α : Type} {ledger after : Ledger} {changes : Changes} {e : LedgerError} {answer : α}
  {planned : Except LedgerError (α × Changes)}

/-- What has nothing to write is answered by any store, and writes nothing. -/
theorem transact_of_entries_nil (hplanned : planned = .ok (answer, changes))
    (empty : changes.entries = []) : ledger.transact planned =
      (.ok answer, { ledger with counters := ledger.counters.add changes.counted }) := by
  subst hplanned
  simp only [transact, carryOut, if_pos (List.isEmpty_iff.2 empty)]

/-- What a transaction comes to: nothing could be planned, or there is nothing to write, or what was
planned is written, or the write breaks off. -/
theorem transact_cases (ledger : Ledger) (planned : Except LedgerError (α × Changes)) :
    (∃ e, planned = .error e ∧ ledger.transact planned = (.error e, ledger)) ∨
    (∃ answer changes, planned = .ok (answer, changes) ∧ changes.entries = [] ∧
      ledger.transact planned =
        (.ok answer, { ledger with counters := ledger.counters.add changes.counted })) ∨
    (∃ answer changes backend, planned = .ok (answer, changes) ∧ changes.entries ≠ [] ∧
      ledger.backend.write changes.entries = (.ok (), backend) ∧
      ledger.transact planned = (.ok answer, { ledger with
        backend
        counters := ledger.counters.add changes.counted
        journal := ledger.journal ++ [changes.entries] })) ∨
    ∃ answer changes e backend, planned = .ok (answer, changes) ∧ changes.entries ≠ [] ∧
      ledger.backend.write changes.entries = (.error e, backend) ∧
      ledger.transact planned = (.error (.ofStore e), { ledger with backend }) := by
  cases planned with
  | error e => exact .inl ⟨e, rfl, rfl⟩
  | ok both =>
    obtain ⟨answer, changes⟩ := both
    by_cases empty : changes.entries = []
    · exact .inr (.inl ⟨answer, changes, rfl, empty, transact_of_entries_nil rfl empty⟩)
    · have some_entry : ¬ changes.entries.isEmpty = true := mt List.isEmpty_iff.1 empty
      cases written : ledger.backend.write changes.entries with
      | mk result backend =>
        cases result with
        | ok _ =>
          refine .inr (.inr (.inl ⟨answer, changes, backend, rfl, empty, written, ?_⟩))
          simp only [transact, carryOut, if_neg some_entry, written]
        | error e =>
          refine .inr (.inr (.inr ⟨answer, changes, e, backend, rfl, empty, written, ?_⟩))
          simp only [transact, carryOut, if_neg some_entry, written]

/-- An answer means that the planned changes are in the store; only an empty batch needs no
write. -/
theorem transact_ok (h : ledger.transact planned = (.ok answer, after)) :
    ∃ changes, planned = .ok (answer, changes) ∧
      after.contents = ledger.contents.insertAll changes.entries ∧
      (changes.entries ≠ [] → ledger.backend.faults.write = none) := by
  rcases transact_cases ledger planned with ⟨e, -, result⟩ |
    ⟨answer', changes, hplanned, empty, result⟩ |
    ⟨answer', changes, backend, hplanned, -, written, result⟩ |
    ⟨answer', changes, e, backend, -, -, -, result⟩
  · cases (Prod.mk.inj (result.symm.trans h)).1
  · obtain ⟨same, rfl⟩ := Prod.mk.inj (result.symm.trans h)
    obtain rfl := Except.ok.inj same
    refine ⟨changes, hplanned, ?_, fun some_entry => absurd empty some_entry⟩
    rw [empty]
    rfl
  · obtain ⟨same, rfl⟩ := Prod.mk.inj (result.symm.trans h)
    obtain rfl := Except.ok.inj same
    refine ⟨changes, hplanned, Backend.contents_of_write_ok written, fun _ => ?_⟩
    cases fault : ledger.backend.faults.write with
    | none => rfl
    | some e => simp [Backend.write, fault] at written
  · cases (Prod.mk.inj (result.symm.trans h)).1

/-- A transaction that fails changes the disk of the store at most. -/
theorem eq_of_transact_error (h : ledger.transact planned = (.error e, after)) :
    after = ledger ∨ ∃ backend, after = { ledger with backend } ∧
      backend.contents = ledger.contents ∧ backend.home = ledger.backend.home := by
  rcases transact_cases ledger planned with ⟨e', -, result⟩ | ⟨answer, changes, -, -, result⟩ |
    ⟨answer, changes, backend, -, -, -, result⟩ |
    ⟨answer, changes, e', backend, -, -, written, result⟩
  · exact .inl (Prod.mk.inj (result.symm.trans h)).2.symm
  · cases (Prod.mk.inj (result.symm.trans h)).1
  · cases (Prod.mk.inj (result.symm.trans h)).1
  · have home := (Backend.home_faults_of_write ledger.backend changes.entries).1
    rw [written] at home
    exact .inr ⟨backend, (Prod.mk.inj (result.symm.trans h)).2.symm,
      Backend.contents_of_write_error written, home⟩

/-- An error means that the contents are as they were. -/
theorem contents_of_transact_error (h : ledger.transact planned = (.error e, after)) :
    after.contents = ledger.contents := by
  rcases eq_of_transact_error h with rfl | ⟨backend, rfl, contents, -⟩
  · rfl
  · exact contents

theorem sameAround_transact (ledger : Ledger) (planned : Except LedgerError (α × Changes)) :
    ledger.SameAround (ledger.transact planned).2 := by
  rcases transact_cases ledger planned with ⟨e, -, result⟩ | ⟨answer, changes, -, -, result⟩ |
    ⟨answer, changes, backend, -, -, written, result⟩ |
    ⟨answer, changes, e, backend, -, -, written, result⟩
  · rw [result]
    exact .refl ledger
  · rw [result]
    exact ⟨rfl, rfl, rfl, rfl⟩
  · have kept := Backend.home_faults_of_write ledger.backend changes.entries
    rw [written] at kept
    rw [result]
    exact ⟨kept.1, kept.2, rfl, rfl⟩
  · have kept := Backend.home_faults_of_write ledger.backend changes.entries
    rw [written] at kept
    rw [result]
    exact ⟨kept.1, kept.2, rfl, rfl⟩

theorem sameAround_of_transact {result : Except LedgerError α}
    (h : ledger.transact planned = (result, after)) : ledger.SameAround after := by
  have kept := sameAround_transact ledger planned
  rw [h] at kept
  exact kept

/-- What every write preserves, a transaction preserves. -/
theorem transact_preserves {p : Backend → Prop}
    (writes : ∀ backend batch, p backend → p (backend.write batch).2) (h : p ledger.backend)
    (planned : Except LedgerError (α × Changes)) : p (ledger.transact planned).2.backend := by
  rcases transact_cases ledger planned with ⟨e, -, result⟩ | ⟨answer, changes, -, -, result⟩ |
    ⟨answer, changes, backend, -, -, written, result⟩ |
    ⟨answer, changes, e, backend, -, -, written, result⟩
  · rw [result]
    exact h
  · rw [result]
    exact h
  · have kept := writes ledger.backend changes.entries h
    rw [written] at kept
    rw [result]
    exact kept
  · have kept := writes ledger.backend changes.entries h
    rw [written] at kept
    rw [result]
    exact kept

/-- What was planned is answered, in a store that takes it. -/
theorem transact_ok_of_planned (hplanned : planned = .ok (answer, changes))
    (takes : changes.entries = [] ∨
      ∃ backend, ledger.backend.write changes.entries = (.ok (), backend)) :
    ∃ after, ledger.transact planned = (.ok answer, after) := by
  subst hplanned
  rcases transact_cases ledger (.ok (answer, changes)) with ⟨e, failed, -⟩ |
    ⟨answer', changes', hplanned, -, result⟩ |
    ⟨answer', changes', backend, hplanned, -, -, result⟩ |
    ⟨answer', changes', e, backend, hplanned, some_entry, broken, -⟩
  · cases failed
  · obtain ⟨rfl, rfl⟩ := Prod.mk.inj (Except.ok.inj hplanned)
    exact ⟨_, result⟩
  · obtain ⟨rfl, rfl⟩ := Prod.mk.inj (Except.ok.inj hplanned)
    exact ⟨_, result⟩
  · obtain ⟨rfl, rfl⟩ := Prod.mk.inj (Except.ok.inj hplanned)
    obtain ⟨backend', written⟩ := takes.resolve_left some_entry
    cases (Prod.mk.inj (written.symm.trans broken)).1

/-- Ledgers over one store carry out one plan alike. -/
theorem transact_congr {other : Ledger} (same : other.backend = ledger.backend)
    (planned : Except LedgerError (α × Changes)) :
    (other.transact planned).1 = (ledger.transact planned).1 ∧
      (other.transact planned).2.backend = (ledger.transact planned).2.backend := by
  rcases transact_cases ledger planned with ⟨e, rfl, result⟩ |
    ⟨answer, changes, rfl, empty, result⟩ |
    ⟨answer, changes, backend, rfl, some_entry, written, result⟩ |
    ⟨answer, changes, e, backend, rfl, some_entry, written, result⟩
  · rw [result]
    exact ⟨rfl, same⟩
  · rw [result, transact_of_entries_nil rfl empty]
    exact ⟨rfl, same⟩
  · rw [← same] at written
    rw [result]
    simp only [transact, carryOut, if_neg (mt List.isEmpty_iff.1 some_entry), written]
    exact ⟨trivial, trivial⟩
  · rw [← same] at written
    rw [result]
    simp only [transact, carryOut, if_neg (mt List.isEmpty_iff.1 some_entry), written]
    exact ⟨trivial, trivial⟩

end Ledger

end IngestLedger
