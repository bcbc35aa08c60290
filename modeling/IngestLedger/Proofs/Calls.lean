import IngestLedger.Proofs.Footprints

/-!
# What calls do to the facts of a store

Opening a ledger, verifying its chain and moving progress rows write to other tables and leave the
facts as they are, whether they are answered or not. An applied event and a committed batch
supersede the facts of their rows.

Main statements:

* `Store.Represents.writtenWithin`: what is written to other tables keeps the facts.
* `Ledger.represents_apply`, `Ledger.represents_commitBatch`: the facts after events.
* `Ledger.represents_perform`: the facts after any call.
* `Ledger.perform_preserves`: what every write preserves, every call does.
-/

namespace IngestLedger

/-- The identity events that a call is given. -/
def Call.events : Call → List IdentityEvent
  | .apply event => [event]
  | .commitBatch _ _ _ events => events
  | _ => []

/-- The events that a call delivers: all of them if it is answered, and none if it fails. -/
def Call.deliveredBy (call : Call) : Except LedgerError Answer → List IdentityEvent
  | .ok _ => call.events
  | .error _ => []

theorem Call.deliveredBy_of_events_nil {call : Call} (h : call.events = [])
    (result : Except LedgerError Answer) : call.deliveredBy result = [] := by
  cases result with
  | ok answer => exact h
  | error e => rfl

/-! ### Changes outside the identity tables -/

theorem RunMode.table_notMem_identity {mode : RunMode} {processor : String} {key : Key}
    (h : key ∈ mode.progressKeys processor) : key.table ∉ Table.identity := by
  cases mode with
  | live initial =>
    obtain rfl := List.mem_singleton.1 h
    simp [Key.table, Table.identity]
  | backfill id initial ending overwrite =>
    obtain rfl := List.mem_singleton.1 h
    simp [Key.table, Table.identity]
  | testing start ending => cases h

/-- A call without events writes to other tables. -/
theorem Call.table_notMem_identity {call : Call} (none : call.events = []) {key : Key}
    (h : key ∈ call.footprint) : key.table ∉ Table.identity := by
  cases call with
  | verifyChain chain =>
    obtain rfl := List.mem_singleton.1 h
    decide
  | advance processor version time =>
    obtain rfl := List.mem_singleton.1 h
    simp [Key.table, Table.identity]
  | startOrResume name run =>
    obtain rfl := BackfillRun.eq_of_mem_keys h
    simp [Key.table, Table.identity]
  | advanceBackfill name version time =>
    obtain rfl := List.mem_singleton.1 h
    simp [Key.table, Table.identity]
  | apply event => cases none
  | resolveRange processor mode =>
    cases mode with
    | backfill id initial ending overwrite =>
      obtain rfl := BackfillRun.eq_of_mem_keys h
      simp [Key.table, Table.identity]
    | live initial => cases h
    | testing start ending => cases h
  | commitBatch processor mode batch events =>
    obtain rfl : events = [] := none
    rw [footprint, List.flatMap_nil, List.append_nil] at h
    exact RunMode.table_notMem_identity h

/-- Changes that write to no identity table. -/
def Changes.IsForeign (changes : Changes) : Prop := ∀ e ∈ changes.entries, ¬ IsIdentityKey e.1

/-- Changes under keys of other tables. -/
theorem Changes.Within.isForeign {keys : List Key} {changes : Changes} (h : changes.Within keys)
    (other : ∀ key ∈ keys, key.table ∉ Table.identity) : changes.IsForeign := by
  intro e member
  obtain ⟨key, inside, hkey, -⟩ := h e member
  rw [Key.isIdentityKey_iff hkey]
  exact other key inside

/-- What is written to other tables keeps the facts. -/
theorem Store.Represents.writtenWithin {before after : Store} {facts : Facts} {keys : List Key}
    (h : before.Represents facts) (written : before.WrittenWithin keys after)
    (other : ∀ key ∈ keys, key.table ∉ Table.identity) : after.Represents facts := by
  obtain ⟨changes, within, rfl⟩ := written
  exact h.insertAll_foreign (within.isForeign other)

namespace Ledger

variable {ledger after : Ledger} {facts : Facts} {changes : Changes} {now : Timestamp}

/-- The progress row of every mode is foreign. -/
theorem isForeign_of_planCheckpoint {processor : String} {batch : BatchInfo} {mode : RunMode}
    {outcome : CheckpointOutcome}
    (planned : ledger.planCheckpoint now processor batch mode = .ok (outcome, changes)) :
    changes.IsForeign := by
  exact (within_planCheckpoint planned).isForeign fun _ => RunMode.table_notMem_identity

/-! ### Calls -/

theorem represents_openOn {backend : Backend} (h : backend.contents.Represents facts)
    (counters : Counters) : (openOn backend counters).2.contents.Represents facts :=
  h.writtenWithin (writtenWithin_openOn backend counters) (by decide)

/-- Calls without events write to other tables. -/
theorem represents_perform_of_events_nil (h : ledger.contents.Represents facts) {call : Call}
    (none : call.events = []) : (ledger.perform now call).2.contents.Represents facts := by
  refine h.writtenWithin (writtenWithin_perform ledger now call) fun key inside => ?_
  exact Call.table_notMem_identity none inside

/-- An event that is applied supersedes the fact of its row. -/
theorem represents_apply (h : ledger.contents.Represents facts) {event : IdentityEvent}
    {outcome : ApplyOutcome} (answered : ledger.apply event = (.ok outcome, after)) :
    after.contents.Represents (facts.supersede event) := by
  obtain ⟨changes, planned, contents, -⟩ := transact_ok answered
  obtain ⟨-, -, planned⟩ := bind_eq_ok_iff.1 planned
  rw [contents]
  exact represents_of_planEvent h planned h rfl

/-- The plan of a batch that is committed: its progress row, and then its coalesced events. -/
theorem commitBatch_ok {processor : String} {mode : RunMode} {batch : BatchInfo}
    {events : List IdentityEvent} {outcome : BatchOutcome}
    (answered : ledger.commitBatch now processor mode batch events = (.ok outcome, after)) :
    ledger.verifiedChain.isSome ∧ ∃ progress rest,
      ledger.planCheckpoint now processor batch mode = .ok (outcome.checkpoint, progress) ∧
      ledger.planEvents (coalesce events) = .ok (outcome.events, rest) ∧
      after.contents = (ledger.contents.insertAll progress.entries).insertAll rest.entries ∧
      (progress.entries ++ rest.entries ≠ [] → ledger.backend.faults.write = none) := by
  obtain ⟨changes, planned, contents, writes⟩ := transact_ok answered
  obtain ⟨chain, verified, planned⟩ := bind_eq_ok_iff.1 planned
  obtain ⟨progress, rest, hprogress, hrest, rfl⟩ := planBatch_eq_ok_iff.1 planned
  rw [Changes.entries_append] at contents writes
  rw [Store.insertAll_append] at contents
  rw [ensureVerified_eq_ok_iff] at verified
  exact ⟨by rw [verified]; rfl, progress, rest, hprogress, hrest, contents, writes⟩

theorem sameAround_commitBatch {processor : String} {mode : RunMode} {batch : BatchInfo}
    {events : List IdentityEvent} {answer : Except LedgerError BatchOutcome}
    (result : ledger.commitBatch now processor mode batch events = (answer, after)) :
    ledger.SameAround after := sameAround_of_transact result

/-- A batch without progress is committed, when the store takes it and its events can be stored. -/
theorem exists_commitBatch_testing (h : ledger.contents.Represents facts)
    (verified : ledger.verifiedChain.isSome) (works : ledger.backend.Works) {processor : String}
    {start : Version} {ending : Option Version} {batch : BatchInfo} {events : List IdentityEvent}
    (storable : ∀ event ∈ events, event.IsStorable) : ∃ outcome after,
      ledger.commitBatch now processor (.testing start ending) batch events =
        (.ok outcome, after) := by
  obtain ⟨chain, hchain⟩ := Option.isSome_iff_exists.1 verified
  obtain ⟨tally, rest, planned⟩ := exists_planEvents h works.gets
    fun event member => storable event (mem_coalesce_iff.1 member).mem
  have whole : ledger.planBatch now processor (.testing start ending) batch events =
      .ok (⟨.skipped, tally⟩, .nothing ++ rest) :=
    planBatch_eq_ok_iff.2 ⟨.nothing, rest, rfl, planned, rfl⟩
  have verifiedPlan : (do
      let _ ← ledger.ensureVerified
      ledger.planBatch now processor (.testing start ending) batch events) =
        .ok (⟨.skipped, tally⟩, .nothing ++ rest) := by
    rw [ensureVerified_eq_ok_iff.2 hchain]
    exact whole
  exact ⟨_, transact_ok_of_planned verifiedPlan (.inr (works.writes _))⟩

/-- The coalesced events of a batch that is committed supersede the facts of their rows. -/
theorem represents_commitBatch (h : ledger.contents.Represents facts) {processor : String}
    {mode : RunMode} {batch : BatchInfo} {events : List IdentityEvent} {outcome : BatchOutcome}
    (answered : ledger.commitBatch now processor mode batch events = (.ok outcome, after)) :
    after.contents.Represents (facts.supersedeAll (coalesce events)) := by
  obtain ⟨-, progress, rest, hprogress, hrest, contents, -⟩ := commitBatch_ok answered
  rw [contents]
  exact planEvents_ok h (nodup_keys_coalesce events) hrest
    (h.insertAll_foreign (isForeign_of_planCheckpoint hprogress)) fun _ _ => rfl

/-- A call delivers its events when it is answered, and changes no fact when it is not. -/
theorem represents_perform (h : ledger.contents.Represents facts) (now : Timestamp) (call : Call) :
    (ledger.perform now call).2.contents.Represents
      (facts.supersedeAll (coalesce (call.deliveredBy (ledger.perform now call).1))) := by
  cases call with
  | apply event =>
    simp only [perform]
    cases result : ledger.apply event with
    | mk answer after =>
      cases answer with
      | ok outcome => exact represents_apply h result
      | error e =>
        show after.contents.Represents facts
        rw [contents_of_transact_error result]
        exact h
  | commitBatch processor mode batch events =>
    simp only [perform]
    cases result : ledger.commitBatch now processor mode batch events with
    | mk answer after =>
      cases answer with
      | ok outcome => exact represents_commitBatch h result
      | error e =>
        show after.contents.Represents facts
        rw [contents_of_transact_error result]
        exact h
  | _ =>
    rw [Call.deliveredBy_of_events_nil rfl]
    exact represents_perform_of_events_nil h rfl

/-- What every write preserves, a call preserves. -/
theorem perform_preserves {p : Backend → Prop}
    (writes : ∀ backend batch, p backend → p (backend.write batch).2) (h : p ledger.backend)
    (now : Timestamp) (call : Call) : p (ledger.perform now call).2.backend := by
  -- resolving a range may start a backfill, so this case comes first
  have started : ∀ name run, p (ledger.startOrResume now name run).2.backend := by
    intro name run
    rw [backend_startOrResume]
    exact transact_preserves writes h _
  cases call with
  | verifyChain chain =>
    show p (ledger.verifyChain chain).2.backend
    rw [backend_verifyChain]
    split
    · exact transact_preserves writes h _
    · exact h
  | startOrResume name run => exact started name run
  | resolveRange processor mode =>
    show p (ledger.resolveRange now processor mode).2.backend
    rw [resolveRange_snd]
    cases mode with
    | backfill id initial ending overwrite => exact started _ _
    | live initial => exact h
    | testing start ending => exact h
  | advance processor version time => exact transact_preserves writes h _
  | advanceBackfill name version time => exact transact_preserves writes h _
  | apply event => exact transact_preserves writes h _
  | commitBatch processor mode batch events => exact transact_preserves writes h _

/-- A call leaves the faults of the store as they are. -/
theorem faults_perform (ledger : Ledger) (now : Timestamp) (call : Call) :
    (ledger.perform now call).2.backend.faults = ledger.backend.faults := by
  refine perform_preserves (p := fun backend => backend.faults = ledger.backend.faults) ?_ rfl now
    call
  exact fun backend batch same => (Backend.home_faults_of_write backend batch).2.trans same

end Ledger

end IngestLedger
