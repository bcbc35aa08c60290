import IngestLedger.Proofs.Footprints

/-!
# Verifying a chain

The first chain that is verified over a store is recorded in it once and for all, and no other chain
is verified from then on. A ledger without a verified chain writes nothing to its store, whatever it
is called to do. What opening a ledger writes is the marker of the layout, over an empty store.

Main definitions:

* `Store.HasRecord`: a store has the record of a row.
* `Store.IsJustMarked`: a store that was opened for the first time.

Main statements:

* `Ledger.get?_chain_perform`: the recorded chain stays as it is.
* `Ledger.hasRecord_of_verifyChain`: the verified chain is the one in the store.
* `Ledger.verifiedChain_perform`: what a call does to the verified chain.
* `Ledger.unwritten_of_unverified`: without a verified chain, calls write nothing.
* `Ledger.openOn_of_hasRecord`, `Ledger.openOn_of_empty`: what opening writes.
* `Ledger.counters_of_verifyChain_error`: a refused chain is counted, and no other failure.
-/

namespace IngestLedger

/-- Only the call that verifies a chain writes beside the tables of progress and of identities, and
it writes to the table of the chain. -/
theorem Call.tables_subset (call : Call) :
    call.tables = [.chain] ∧ (∃ chain, call = .verifyChain chain) ∨
      call.tables ⊆ [.processors, .backfills] ++ Table.identity := by
  have modes : ∀ mode : RunMode, mode.tables ⊆ [Table.processors, .backfills] := by
    intro mode
    cases mode <;> simp [RunMode.tables, RunMode.kind?, ProgressKind.table]
  cases call with
  | verifyChain chain => exact .inl ⟨rfl, chain, rfl⟩
  | advance processor version time => exact .inr (by simp [tables, ProgressKind.table])
  | startOrResume name run => exact .inr (by simp [tables, ProgressKind.table])
  | advanceBackfill name version time => exact .inr (by simp [tables, ProgressKind.table])
  | apply event => exact .inr (List.subset_append_right _ _)
  | resolveRange processor mode => exact .inr (List.subset_append_of_subset_left _ (modes mode))
  | commitBatch processor mode batch events =>
    exact .inr (List.append_subset.2 ⟨List.subset_append_of_subset_left _ (modes mode),
      List.subset_append_right _ _⟩)

theorem Call.chain_notMem_tables {call : Call} (other : ∀ chain, call ≠ .verifyChain chain) :
    Table.chain ∉ call.tables := by
  intro inside
  rcases call.tables_subset with ⟨-, chain, verifying⟩ | subset
  · exact other chain verifying
  · exact absurd (subset inside) (by decide)

/-- No call writes to the table of the layout. -/
theorem Call.metadata_notMem_tables (call : Call) : Table.metadata ∉ call.tables := by
  intro inside
  rcases call.tables_subset with ⟨only, -⟩ | subset
  · rw [only] at inside
    exact absurd inside (by decide)
  · exact absurd (subset inside) (by decide)

/-! ### Records of a store -/

/-- A store has the record of a row under some bytes. -/
def Store.HasRecord {α : Type} [Row α] (store : Store) (bytes : Bytes) (row : α) : Prop :=
  ∃ value, Record.encode row = .ok value ∧ store.get? bytes = some value

/-- A store with the marker of the layout and nothing else. -/
def Store.IsJustMarked (store : Store) : Prop :=
  ∃ value, Record.encode LayoutRow.current = .ok value ∧
    store = Store.empty.insertAll [(Key.layoutBytes, value)]

theorem Store.IsJustMarked.hasRecord {store : Store} (h : store.IsJustMarked) :
    store.HasRecord Key.layoutBytes LayoutRow.current := by
  obtain ⟨value, encoded, rfl⟩ := h
  exact ⟨value, encoded, Store.get?_insertAll_single _ _ value⟩

namespace Ledger

variable {ledger : Ledger} {now : Timestamp} {call : Call} {chain : ChainId}

theorem readRow_of_hasRecord {α : Type} [Row α] {bytes : Bytes} {row : α}
    (h : ledger.contents.HasRecord bytes row) (reads : ledger.backend.faults.get = none) :
    ledger.readRow α bytes = .ok (some row) := by
  obtain ⟨value, encoded, stored⟩ := h
  unfold contents at stored
  simp only [readRow, Backend.get, reads, stored, Record.decode_encode encoded bytes]

/-! ### The recorded chain -/

/-- A chain is recorded only where there is none. -/
theorem get?_of_chainId_none (read : ledger.chainId = .ok none) :
    ledger.contents.get? Key.chainBytes = none := by
  unfold chainId at read
  split at read
  · rename_i row found
    have hkey : Key.chain.bytes = .ok Key.chainBytes := rfl
    rw [← Store.value?_eq hkey]
    rcases readRow_cases hkey found with ⟨none, -⟩ | ⟨value, row', -, rfl, -⟩
    · exact none
    · cases Except.ok.inj read
  · cases read

/-- A call keeps the chain that is recorded. -/
theorem get?_chain_perform {value : Bytes}
    (h : ledger.contents.get? Key.chainBytes = some value) (now : Timestamp) (call : Call) :
    (ledger.perform now call).2.contents.get? Key.chainBytes = some value := by
  by_cases verifying : ∃ chain, call = .verifyChain chain
  · obtain ⟨chain, rfl⟩ := verifying
    show (ledger.verifyChain chain).2.contents.get? Key.chainBytes = some value
    have taken : ledger.chainId ≠ .ok none := fun read => by
      rw [get?_of_chainId_none read] at h
      cases h
    rcases verifyChain_cases ledger chain with ⟨e, -, verified⟩ | ⟨-, verified⟩ |
      ⟨stored, -, -, verified⟩ | ⟨after, read, -, -⟩ | ⟨e, after, read, -, -⟩
    · rw [verified]
      exact h
    · rw [verified]
      exact h
    · rw [verified]
      exact h
    · exact absurd read taken
    · exact absurd read taken
  · have outside : Key.chain ∉ call.footprint := fun inside =>
      Call.chain_notMem_tables (not_exists.1 verifying) (Call.table_mem_of_mem_footprint inside)
    exact (value?_perform ledger now outside).trans h

/-- Once a chain is verified, it is the one in the store. -/
theorem hasRecord_of_verifyChain (wellFormed : ledger.contents.IsWellFormed) {after : Ledger}
    (answered : ledger.verifyChain chain = (.ok (), after)) :
    after.contents.HasRecord Key.chainBytes (ChainRow.mk chain) := by
  have hkey : Key.chain.bytes = .ok Key.chainBytes := rfl
  rcases verifyChain_cases ledger chain with ⟨e, -, verified⟩ | ⟨read, verified⟩ |
    ⟨stored, -, -, verified⟩ | ⟨recorded, -, planned, verified⟩ | ⟨e, failed, -, -, verified⟩
  · cases (Prod.mk.inj (verified.symm.trans answered)).1
  · -- the row that was read is the record that stands there
    obtain ⟨-, rfl⟩ := Prod.mk.inj (verified.symm.trans answered)
    show ledger.contents.HasRecord Key.chainBytes (ChainRow.mk chain)
    unfold chainId at read
    split at read
    · rename_i row found
      rcases readRow_cases hkey found with ⟨-, rfl⟩ | ⟨value, row, stored, rfl, decoded⟩
      · cases Except.ok.inj read
      · obtain rfl := Option.some.inj (Except.ok.inj read)
        obtain ⟨row', encoded⟩ := wellFormed .chain value stored
        rw [Record.decode_encode encoded []] at decoded
        obtain rfl := Option.some.inj decoded
        exact ⟨value, encoded, stored⟩
    · cases read
  · cases (Prod.mk.inj (verified.symm.trans answered)).1
  · obtain ⟨-, rfl⟩ := Prod.mk.inj (verified.symm.trans answered)
    obtain ⟨changes, planned, contents, -⟩ := transact_ok planned
    obtain ⟨value, encoded, planned⟩ := bind_eq_ok_iff.1 planned
    obtain ⟨-, rfl⟩ := Prod.mk.inj (Except.ok.inj planned)
    refine ⟨value, encoded, ?_⟩
    show recorded.contents.get? Key.chainBytes = some value
    rw [contents, Store.get?_insertAll_single]
  · cases (Prod.mk.inj (verified.symm.trans answered)).1

/-! ### The verified chain -/

/-- A call keeps the verified chain, unless it verifies one. -/
theorem verifiedChain_perform (ledger : Ledger) (now : Timestamp) (call : Call) :
    (ledger.perform now call).2.verifiedChain = ledger.verifiedChain ∨
      ∃ chain, call = .verifyChain chain ∧ (ledger.perform now call).1 = .ok .done ∧
        (ledger.perform now call).2.verifiedChain = some chain := by
  cases call with
  | verifyChain chain =>
    have held := verifiedChain_verifyChain ledger chain
    simp only [perform, answering]
    cases answered : (ledger.verifyChain chain).1 with
    | error e =>
      rw [answered] at held
      exact .inl held
    | ok done =>
      rw [answered] at held
      exact .inr ⟨chain, rfl, rfl, held⟩
  | startOrResume name run => exact .inl (verifiedChain_startOrResume ledger now name run)
  | resolveRange processor mode =>
    refine .inl ?_
    show (ledger.resolveRange now processor mode).2.verifiedChain = ledger.verifiedChain
    rw [resolveRange_snd]
    cases mode with
    | backfill id initial ending overwrite => exact verifiedChain_startOrResume ledger now _ _
    | live initial => rfl
    | testing start ending => rfl
  | advance processor version time => exact .inl (sameAround_transact ledger _).verifiedChain
  | advanceBackfill name version time => exact .inl (sameAround_transact ledger _).verifiedChain
  | apply event => exact .inl (sameAround_transact ledger _).verifiedChain
  | commitBatch processor mode batch events =>
    exact .inl (sameAround_transact ledger _).verifiedChain

/-! ### Calls without a verified chain -/

/-- A transaction with nothing to write writes nothing. -/
theorem unwritten_transact {α : Type} {planned : Except LedgerError (α × Changes)}
    (none : ∀ answer changes, planned = .ok (answer, changes) → changes.entries = []) :
    (ledger.transact planned).2.backend = ledger.backend ∧
      (ledger.transact planned).2.journal = ledger.journal := by
  rcases transact_cases ledger planned with ⟨e, -, result⟩ | ⟨answer, changes, -, -, result⟩ |
    ⟨answer, changes, backend, hplanned, some_entry, -, -⟩ |
    ⟨answer, changes, e, backend, hplanned, some_entry, -, -⟩
  · rw [result]
    exact ⟨rfl, rfl⟩
  · rw [result]
    exact ⟨rfl, rfl⟩
  · exact absurd (none answer changes hplanned) some_entry
  · exact absurd (none answer changes hplanned) some_entry

/-- Without a verified chain, what asks for one writes nothing. -/
theorem unwritten_guarded {α : Type} (unverified : ledger.verifiedChain = none)
    (plan : Except LedgerError (α × Changes)) :
    (ledger.transact (do let _ ← ledger.ensureVerified; plan)).2.backend = ledger.backend ∧
      (ledger.transact (do let _ ← ledger.ensureVerified; plan)).2.journal = ledger.journal := by
  refine unwritten_transact fun answer changes planned => ?_
  obtain ⟨chain, verified, -⟩ := bind_eq_ok_iff.1 planned
  rw [ensureVerified_eq_ok_iff, unverified] at verified
  cases verified

/-- A backfill that begins anew asks for the chain later than other calls, but before it writes. -/
theorem entries_planStart_of_unverified (unverified : ledger.verifiedChain = none) {name : String}
    {run : BackfillRun} {plan : BackfillPlan} {changes : Changes}
    (planned : ledger.planStart now name run = .ok (plan, changes)) : changes.entries = [] := by
  obtain ⟨-, -, -, -, ⟨-, verified, -⟩ | ⟨-, rfl⟩⟩ := planStart_ok planned
  · rw [unverified] at verified
    cases verified
  · rfl

theorem unwritten_startOrResume (unverified : ledger.verifiedChain = none) (now : Timestamp)
    (name : String) (run : BackfillRun) :
    (ledger.startOrResume now name run).2.backend = ledger.backend ∧
      (ledger.startOrResume now name run).2.journal = ledger.journal := by
  have unwritten : (ledger.transact (ledger.planStart now name run)).2.backend = ledger.backend ∧
      (ledger.transact (ledger.planStart now name run)).2.journal = ledger.journal :=
    unwritten_transact fun _ _ planned => entries_planStart_of_unverified unverified planned
  rcases startOrResume_cases ledger now name run with
    ⟨plan, after, planned, started⟩ | ⟨e, after, planned, started⟩
  · rw [planned] at unwritten
    rw [started]
    exact unwritten
  · rw [planned] at unwritten
    rw [started]
    exact unwritten

/-- Without a verified chain, no call writes anything but the one that verifies a chain. -/
theorem unwritten_of_unverified (unverified : ledger.verifiedChain = none) (now : Timestamp)
    (other : ∀ chain, call ≠ .verifyChain chain) :
    (ledger.perform now call).2.backend = ledger.backend ∧
      (ledger.perform now call).2.journal = ledger.journal := by
  cases call with
  | verifyChain chain => exact absurd rfl (other chain)
  | startOrResume name run => exact unwritten_startOrResume unverified now name run
  | resolveRange processor mode =>
    show (ledger.resolveRange now processor mode).2.backend = ledger.backend ∧
      (ledger.resolveRange now processor mode).2.journal = ledger.journal
    rw [resolveRange_snd]
    cases mode with
    | backfill id initial ending overwrite => exact unwritten_startOrResume unverified now _ _
    | live initial => exact ⟨rfl, rfl⟩
    | testing start ending => exact ⟨rfl, rfl⟩
  | advance processor version time => exact unwritten_guarded unverified _
  | advanceBackfill name version time => exact unwritten_guarded unverified _
  | apply event => exact unwritten_guarded unverified _
  | commitBatch processor mode batch events => exact unwritten_guarded unverified _

/-- The call that verifies a chain writes the row of the chain at most. -/
theorem journal_verifyChain (ledger : Ledger) (chain : ChainId) :
    (ledger.verifyChain chain).2.journal = ledger.journal ∨
      ∃ value, (ledger.verifyChain chain).2.journal =
        ledger.journal ++ [[(Key.chainBytes, value)]] := by
  have recorded : (ledger.transact (planChain chain)).2.journal = ledger.journal ∨
      ∃ value, (ledger.transact (planChain chain)).2.journal =
        ledger.journal ++ [[(Key.chainBytes, value)]] := by
    rcases transact_cases ledger (planChain chain) with ⟨e, -, result⟩ |
      ⟨answer, changes, -, -, result⟩ | ⟨answer, changes, backend, planned, -, -, result⟩ |
      ⟨answer, changes, e, backend, -, -, -, result⟩
    · exact .inl (by rw [result])
    · exact .inl (by rw [result])
    · obtain ⟨value, -, planned⟩ := bind_eq_ok_iff.1 planned
      obtain ⟨-, rfl⟩ := Prod.mk.inj (Except.ok.inj planned)
      exact .inr ⟨value, by rw [result]⟩
    · exact .inl (by rw [result])
  rcases verifyChain_cases ledger chain with ⟨e, -, verified⟩ | ⟨-, verified⟩ |
    ⟨stored, -, -, verified⟩ | ⟨after, -, planned, verified⟩ | ⟨e, after, -, planned, verified⟩
  · exact .inl (by rw [verified])
  · exact .inl (by rw [verified])
  · exact .inl (by rw [verified])
  · rw [planned] at recorded
    rw [verified]
    exact recorded
  · rw [planned] at recorded
    rw [verified]
    exact recorded

/-! ### Opening -/

/-- Opening a ledger over a store with the marker of the layout changes nothing. -/
theorem openOn_of_hasRecord {backend : Backend} (counters : Counters)
    (marked : backend.contents.HasRecord Key.layoutBytes LayoutRow.current) :
    (openOn backend counters).2.backend = backend ∧
      (backend.faults.get = none → (openOn backend counters).1 = .ok ()) := by
  have marker : (fresh backend counters).contents.HasRecord Key.layoutBytes LayoutRow.current :=
    marked
  constructor
  · refine (unwritten_transact fun answer changes planned => ?_).1
    obtain ⟨stored, read, ⟨-, rfl⟩ | ⟨rfl, -⟩⟩ := planLayout_ok planned
    · rfl
    · have reads : backend.faults.get = none := by
        cases fault : backend.faults.get with
        | none => rfl
        | some e => simp [readRow, Backend.get, fresh, fault] at read
      cases Except.ok.inj ((readRow_of_hasRecord marker reads).symm.trans read)
  · intro reads
    have planned : (fresh backend counters).planLayout = .ok ((), .nothing) := by
      rw [planLayout, readRow_of_hasRecord marker reads]
      rfl
    rw [openOn, planned]
    rfl

/-- Opening a ledger over an empty store marks the layout, or nothing is opened. -/
theorem openOn_of_empty {backend : Backend} (counters : Counters)
    (empty : backend.contents = .empty) :
    (openOn backend counters).2.contents.IsJustMarked ∨
      (openOn backend counters).2.contents = .empty ∧
        (openOn backend counters).1.isOk = false := by
  cases result : openOn backend counters with
  | mk answer after =>
    cases answer with
    | error e =>
      have kept : after.contents = backend.contents := contents_of_transact_error result
      exact .inr ⟨kept.trans empty, rfl⟩
    | ok _ =>
      obtain ⟨changes, planned, contents, -⟩ := transact_ok result
      have hkey : Key.layout.bytes = .ok Key.layoutBytes := rfl
      have free : (fresh backend counters).contents.value? .layout = none := by
        show backend.contents.value? .layout = none
        rw [empty, Store.value?_empty]
      obtain ⟨stored, read, ⟨rfl, -⟩ | ⟨-, value, encoded, rfl⟩⟩ := planLayout_ok planned
      · rcases readRow_cases hkey read with ⟨-, absent⟩ | ⟨value, -, stored, -⟩
        · cases absent
        · rw [free] at stored
          cases stored
      · refine .inl ⟨value, encoded, ?_⟩
        rw [contents, ← empty]
        rfl

/-! ### Refused chains -/

section Refused

variable {e : LedgerError} {failed : Ledger}

theorem ne_chainMismatch_of_decode {α : Type} [Row α] {bytes value : Bytes}
    (decoded : (Record.decode bytes value : Except LedgerError α) = .error e)
    (stored attempted : ChainId) : e ≠ .chainMismatch stored attempted := by
  rintro rfl
  simp only [Record.decode] at decoded
  split at decoded
  · cases decoded
  · split at decoded
    · split at decoded
      · cases decoded
      · cases decoded
    · cases decoded

/-- No row that cannot be read looks like a chain that is refused. -/
theorem ne_chainMismatch_of_readRow {α : Type} [Row α] {bytes : Bytes}
    (read : ledger.readRow α bytes = .error e) (stored attempted : ChainId) :
    e ≠ .chainMismatch stored attempted := by
  rintro rfl
  unfold readRow at read
  split at read
  · cases read
  · cases read
  · rename_i value found
    split at read
    · rename_i fault decoded
      obtain rfl := Except.error.inj read
      exact ne_chainMismatch_of_decode decoded stored attempted rfl
    · cases read

/-- Nor does a chain that cannot be recorded. -/
theorem ne_chainMismatch_of_planChain {chain : ChainId}
    (refused : ledger.transact (planChain chain) = (.error e, failed))
    (stored attempted : ChainId) : e ≠ .chainMismatch stored attempted := by
  rintro rfl
  rcases transact_cases ledger (planChain chain) with ⟨e, planned, result⟩ |
    ⟨answer, changes, -, -, result⟩ | ⟨answer, changes, backend, -, -, -, result⟩ |
    ⟨answer, changes, e, backend, -, -, -, result⟩
  · obtain rfl := Except.error.inj (Prod.mk.inj (result.symm.trans refused)).1
    cases encoded : Record.encode (ChainRow.mk chain) with
    | ok value => simp [planChain, encoded, bind, Except.bind, pure, Except.pure] at planned
    | error fault =>
      simp only [planChain, encoded, bind, Except.bind, Except.error.injEq] at planned
      rw [planned] at encoded
      unfold Record.encode at encoded
      split at encoded
      · cases encoded
      · cases encoded
  · cases (Prod.mk.inj (result.symm.trans refused)).1
  · cases (Prod.mk.inj (result.symm.trans refused)).1
  · cases (Prod.mk.inj (result.symm.trans refused)).1

/-- A chain that is not verified was refused, which is counted, or something else has failed. -/
theorem counters_of_verifyChain_error {chain : ChainId}
    (h : ledger.verifyChain chain = (.error e, failed)) :
    (∃ stored, e = .chainMismatch stored chain) ∧
        failed.counters = ledger.counters.add [.chainChecked .mismatch] ∨
      (∀ stored attempted, e ≠ .chainMismatch stored attempted) ∧
        failed.counters = ledger.counters := by
  rcases verifyChain_cases ledger chain with ⟨fault, read, verified⟩ | ⟨-, verified⟩ |
    ⟨stored, -, -, verified⟩ | ⟨after, -, -, verified⟩ | ⟨fault, after, -, refused, verified⟩
  · obtain ⟨same, rfl⟩ := Prod.mk.inj (verified.symm.trans h)
    obtain rfl := Except.error.inj same
    unfold chainId at read
    split at read
    · cases read
    · rename_i row
      obtain rfl := Except.error.inj read
      exact .inr ⟨ne_chainMismatch_of_readRow row, rfl⟩
  · cases (Prod.mk.inj (verified.symm.trans h)).1
  · obtain ⟨same, rfl⟩ := Prod.mk.inj (verified.symm.trans h)
    exact .inl ⟨⟨stored, (Except.error.inj same).symm⟩, rfl⟩
  · cases (Prod.mk.inj (verified.symm.trans h)).1
  · obtain ⟨same, rfl⟩ := Prod.mk.inj (verified.symm.trans h)
    obtain rfl := Except.error.inj same
    refine .inr ⟨ne_chainMismatch_of_planChain refused, ?_⟩
    rcases eq_of_transact_error refused with rfl | ⟨backend, rfl, -, -⟩
    · rfl
    · rfl

end Refused

end Ledger

end IngestLedger
