import IngestLedger.Proofs.Failures
import IngestLedger.Proofs.PlannedEvents

/-!
# Batches that are committed again

Once a batch was committed, its events and its live progress are settled: the rows that they are for
are at least as new as they are, and stay so through everything that happens to the store later. A
settled batch can be committed again at any time, and then does nothing.

Main definitions:

* `Store.HasSettled`: the rows of a batch are at least as new as the batch.

Main statements:

* `Ledger.hasSettled_of_commitBatch`: a committed batch is settled.
* `Ledger.planBatch_of_hasSettled`: a settled batch has nothing to write.
* `Session.replay_of_commit`: a batch that was committed does nothing when it is committed again.
-/

namespace IngestLedger

/-- The rows of a batch are at least as new as the batch: the live progress of its mode and the
rows of its events. -/
structure Store.HasSettled (store : Store) (processor : String) (mode : RunMode) (batch : BatchInfo)
    (events : List IdentityEvent) : Prop where
  progress : mode.kind? = some .live → store.HasReached (.processor processor) batch.last
  events : ∀ event ∈ coalesce events, store.HasReached event.key event.version

namespace Store

variable {before after store : Store} {key : Key} {version : Version}

/-- Only a key that can be written has a row that tells a version. -/
theorem HasReached.exists_bytes (h : store.HasReached key version) :
    ∃ bytes, key.bytes = .ok bytes := by
  obtain ⟨reached, found, -⟩ := h
  cases hkey : key.bytes with
  | ok bytes => exact ⟨bytes, rfl⟩
  | error fault => simp [version?, value?, hkey] at found

theorem hasReached_of_value? (value : Bytes) (stored : store.value? key = some value)
    (told : key.versionIn? value = some version) : store.HasReached key version := by
  refine ⟨version, ?_, UInt64.le_refl version⟩
  rw [version?, stored, Option.bind_some, told]

/-- What is settled stays settled while rows give way to newer ones only. -/
theorem HasSettled.of_givesWay {processor : String} {mode : RunMode} {batch : BatchInfo}
    {events : List IdentityEvent} (h : before.HasSettled processor mode batch events)
    (givesWay : ∀ key : Key, key.table ∈ Table.versioned → before.GivesWay after key) :
    after.HasSettled processor mode batch events where
  progress live := by
    have versioned : (Key.processor processor).table ∈ Table.versioned := by
      simp [Key.table, Table.versioned]
    exact (givesWay _ versioned).hasReached (h.progress live)
  events event member :=
    (givesWay _ event.table_key_mem_versioned).hasReached (h.events event member)

end Store

namespace Ledger

variable {ledger after : Ledger} {now : Timestamp} {event : IdentityEvent}
  {events : List IdentityEvent} {tally : ApplyTally} {changes : Changes} {processor : String}
  {mode : RunMode} {batch : BatchInfo}

/-! ### What a committed batch has settled -/

/-- An event that is planned is as old as its row, or its row tells its version from then on. -/
theorem reached_of_planEvents (distinct : (events.map IdentityEvent.key).Nodup)
    (planned : ledger.planEvents events = .ok (tally, changes)) (member : event ∈ events) :
    ledger.contents.HasReached event.key event.version ∨
      ∀ store : Store, (store.insertAll changes.entries).HasReached event.key event.version := by
  by_cases reached : ledger.contents.HasReached event.key event.version
  · exact .inl reached
  · refine .inr fun store => ⟨event.version, ?_, UInt64.le_refl _⟩
    exact version?_of_fresh distinct planned member reached store

theorem reached_of_planAdvance {version : Version} {time : Option Timestamp}
    {outcome : AdvanceOutcome}
    (planned : ledger.planAdvance now processor version time = .ok (outcome, changes)) :
    ledger.contents.HasReached (.processor processor) version ∨
      ∀ store : Store,
        (store.insertAll changes.entries).HasReached (.processor processor) version := by
  obtain ⟨bytes, stored, hkey, read, ⟨⟨last, here, le⟩, -, -⟩ | ⟨-, -, value, encoded, rfl⟩⟩ :=
    planAdvance_ok planned
  · rw [keyBytes_eq_ok_iff] at hkey
    obtain ⟨-, told⟩ := version?_of_readRow (fun _ => rfl) hkey read
    exact .inl ⟨last, told.trans here, le⟩
  · rw [keyBytes_eq_ok_iff] at hkey
    have told := ProcessorRow.versionIn?_of_encode encoded processor
    exact .inr fun store =>
      Store.hasReached_of_value? value (store.value?_insertAll_single hkey value) told

/-- A batch that was committed is settled. -/
theorem hasSettled_of_commitBatch {outcome : BatchOutcome}
    (committed : ledger.commitBatch now processor mode batch events = (.ok outcome, after)) :
    after.contents.HasSettled processor mode batch events := by
  have givesWay : ∀ key : Key, key.table ∈ Table.versioned →
      ledger.contents.GivesWay after.contents key := by
    intro key versioned
    have performed :=
      givesWay_perform ledger now (.commitBatch processor mode batch events) versioned
    rw [perform, committed] at performed
    exact performed
  obtain ⟨-, progress, rest, hprogress, hrest, contents, -⟩ := commitBatch_ok committed
  constructor
  · intro live
    have versioned : (Key.processor processor).table ∈ Table.versioned := by
      simp [Key.table, Table.versioned]
    obtain ⟨initial, rfl⟩ : ∃ initial, mode = .live initial := by
      cases mode with
      | live initial => exact ⟨initial, rfl⟩
      | backfill id initial ending overwrite => cases live
      | testing start ending => cases live
    obtain ⟨⟨moved, row⟩, hplan, planned⟩ := bind_eq_ok_iff.1 hprogress
    obtain ⟨-, rfl⟩ := Prod.mk.inj (Except.ok.inj planned)
    rcases reached_of_planAdvance hplan with earlier | written
    · exact (givesWay _ versioned).hasReached earlier
    · -- the events of the batch are written to other tables
      rw [contents]
      have kept := value?_insertAll_of_planEvents hrest (.processor processor)
        ProgressKind.live.table_notMem_identity (ledger.contents.insertAll row.entries)
      exact Store.GivesWay.hasReached (.inl kept) (written ledger.contents)
  · intro event member
    rcases reached_of_planEvents (nodup_keys_coalesce events) hrest member with earlier | written
    · exact (givesWay _ event.table_key_mem_versioned).hasReached earlier
    · rw [contents]
      exact written _

/-! ### What is planned for a settled batch -/

/-- A settled event is planned as stale. -/
theorem planEvent_of_reached (reached : ledger.contents.HasReached event.key event.version)
    (reads : ledger.backend.faults.get = none) :
    ledger.planEvent event = .ok (.stale, .count (.staleIgnored event.rowTable)) := by
  obtain ⟨row, hrow⟩ := reached.exists_bytes
  obtain ⟨index, hindex⟩ := Key.exists_bytes_reversed_iff.2 ⟨row, hrow⟩
  obtain ⟨version, found, le⟩ := reached
  obtain ⟨stored, read⟩ := exists_readFact_of_isReadable hrow reads (.inr (by rw [found]; rfl))
  obtain ⟨-, told⟩ := version?_of_readFact hrow read
  obtain ⟨old, rfl, rfl⟩ := Option.map_eq_some_iff.1 (told.symm.trans found)
  rw [planEvent_eq, keyBytes_eq_ok_iff.2 hrow, keyBytes_eq_ok_iff.2 hindex]
  have stale : ((some old).any fun old => event.version ≤ old.version) = true := decide_eq_true le
  simp only [bind, Except.bind, read, if_pos stale]
  rfl

theorem exists_planEvents_of_reached
    (settled : ∀ event ∈ events, ledger.contents.HasReached event.key event.version)
    (reads : ledger.backend.faults.get = none) :
    ∃ tally changes, ledger.planEvents events = .ok (tally, changes) :=
  exists_planEvents_of_forall fun event member =>
    ⟨_, _, planEvent_of_reached (settled event member) reads⟩

/-- Settled events that can be planned are all stale. -/
theorem stale_of_planEvents_of_reached
    (settled : ∀ event ∈ events, ledger.contents.HasReached event.key event.version)
    (planned : ledger.planEvents events = .ok (tally, changes)) :
    tally = ⟨0, events.length⟩ ∧ changes.entries = [] := by
  induction events generalizing tally changes with
  | nil =>
    obtain ⟨rfl, rfl⟩ := Prod.mk.inj (Except.ok.inj planned)
    exact ⟨rfl, rfl⟩
  | cons event events ih =>
    obtain ⟨outcome, first, others, rest, plannedFirst, plannedRest, rfl, rfl⟩ :=
      planEvents_cons_ok planned
    obtain ⟨rfl, none⟩ := ih (fun e he => settled e (List.mem_cons_of_mem _ he)) plannedRest
    rcases planEvent_reached plannedFirst with ⟨-, rfl, rfl⟩ | ⟨fresh, -⟩
    · exact ⟨rfl, none⟩
    · exact absurd (settled event List.mem_cons_self) fresh

theorem planAdvance_of_reached (now : Timestamp) {version : Version} (time : Option Timestamp)
    (reached : ledger.contents.HasReached (.processor processor) version)
    (reads : ledger.backend.faults.get = none) :
    ledger.planAdvance now processor version time =
      .ok (.stale, .count (.staleIgnored .processors)) := by
  obtain ⟨bytes, hkey⟩ := reached.exists_bytes
  obtain ⟨last, found, le⟩ := reached
  obtain ⟨stored, read⟩ := exists_readRow_of_isReadable ProcessorRow.lastVersion (fun _ => rfl)
    hkey reads (.inr (by rw [found]; rfl))
  obtain ⟨-, told⟩ := version?_of_readRow (fun _ => rfl) hkey read
  obtain ⟨row, rfl, rfl⟩ := Option.map_eq_some_iff.1 (told.symm.trans found)
  have stale : ((some row).any fun row => version ≤ row.lastVersion) = true := decide_eq_true le
  simp only [planAdvance, keyBytes_eq_ok_iff.2 hkey, read, bind, Except.bind, if_pos stale]
  rfl

/-- A settled batch of a live or a testing run is planned with nothing to write. -/
theorem planBatch_of_hasSettled (now : Timestamp)
    (settled : ledger.contents.HasSettled processor mode batch events)
    (other : mode.kind? ≠ some .backfill) (reads : ledger.backend.faults.get = none) :
    ∃ changes, ledger.planBatch now processor mode batch events =
        .ok (⟨if mode.keepsProgress then .stale else .skipped, 0, (coalesce events).length⟩,
          changes) ∧ changes.entries = [] := by
  obtain ⟨tally, rest, planned⟩ := exists_planEvents_of_reached settled.events reads
  obtain ⟨rfl, none⟩ := stale_of_planEvents_of_reached settled.events planned
  cases mode with
  | live initial =>
    have progress := planAdvance_of_reached now batch.timestamp (settled.progress rfl) reads
    refine ⟨.count (.staleIgnored .processors) ++ rest, ?_, ?_⟩
    · refine planBatch_eq_ok_iff.2 ⟨_, rest, ?_, planned, rfl⟩
      simp only [planCheckpoint, progress]
      rfl
    · rw [Changes.entries_append, none]
      rfl
  | backfill id initial ending overwrite => exact absurd rfl other
  | testing start ending =>
    refine ⟨.nothing ++ rest, ?_, ?_⟩
    · exact planBatch_eq_ok_iff.2 ⟨.nothing, rest, rfl, planned, rfl⟩
    · rw [Changes.entries_append, none]
      rfl

end Ledger

namespace Session

variable {session after : Session} {now : Timestamp} {processor : String} {mode : RunMode}
  {batch : BatchInfo} {events : List IdentityEvent}

/-- A batch that is settled is answered in a live or a testing run, and nothing is written. -/
theorem exists_perform_of_hasSettled
    (settled : session.ledger.contents.HasSettled processor mode batch events)
    (other : mode.kind? ≠ some .backfill) (isOpen : session.isOpen = true)
    (verified : session.ledger.verifiedChain.isSome)
    (reads : session.ledger.backend.faults.get = none) :
    ∃ after, session.perform now (.commitBatch processor mode batch events) =
        (some (.ok (.batch ⟨if mode.keepsProgress then .stale else .skipped,
          0, (coalesce events).length⟩)), after) ∧
      after.ledger.backend = session.ledger.backend := by
  obtain ⟨changes, planned, none⟩ := Ledger.planBatch_of_hasSettled now settled other reads
  obtain ⟨chain, hchain⟩ := Option.isSome_iff_exists.1 verified
  have whole : (do
      let _ ← session.ledger.ensureVerified
      session.ledger.planBatch now processor mode batch events) =
        .ok (⟨if mode.keepsProgress then .stale else .skipped, 0, (coalesce events).length⟩,
          changes) := by
    rw [Ledger.ensureVerified_eq_ok_iff.2 hchain]
    exact planned
  have result : session.ledger.perform now (.commitBatch processor mode batch events) =
      (.ok (.batch ⟨if mode.keepsProgress then .stale else .skipped, 0, (coalesce events).length⟩),
        { session.ledger with counters := session.ledger.counters.add changes.counted }) := by
    rw [Ledger.perform, Ledger.commitBatch, Ledger.transact_of_entries_nil whole none]
    rfl
  refine ⟨{ session with ledger :=
    { session.ledger with counters := session.ledger.counters.add changes.counted } }, ?_, rfl⟩
  rw [perform, if_pos isOpen, result]

/-- When the events of a batch are settled, whoever commits them again writes none of them. -/
theorem stale_of_perform_of_reached
    (settled : ∀ event ∈ coalesce events,
      session.ledger.contents.HasReached event.key event.version)
    {outcome : BatchOutcome}
    (committed : session.perform now (.commitBatch processor mode batch events) =
      (some (.ok (.batch outcome)), after)) :
    outcome.events = ⟨0, (coalesce events).length⟩ ∧
      ∀ bytes, IsIdentityKey bytes →
        after.ledger.contents.get? bytes = session.ledger.contents.get? bytes := by
  obtain ⟨outcome', answered, same⟩ := Ledger.answering_eq_ok (perform_ok committed)
  obtain rfl := Answer.batch.inj same
  obtain ⟨-, progress, rest, hprogress, hrest, contents, -⟩ := Ledger.commitBatch_ok answered
  obtain ⟨tally, none⟩ := Ledger.stale_of_planEvents_of_reached settled hrest
  refine ⟨tally, fun bytes identity => ?_⟩
  rw [contents, none, Store.insertAll_nil]
  refine Store.get?_insertAll_of_forall_ne (fun e member same => ?_) _
  exact Ledger.isForeign_of_planCheckpoint hprogress e member (same ▸ identity)

/-- A batch that was committed once is settled for good. Whatever calls, failures and restarts
follow: when it is committed again in its live or testing run, it is answered, all its events are
stale and nothing is written; and whenever its events are committed again, in a backfill as in any
other run, they are all stale and the identity tables stay as they are. -/
theorem replay_of_commit {accepted : Session} {earlier : Timestamp} {answer : Answer}
    (committed : session.perform earlier (.commitBatch processor mode batch events) =
      (some (.ok answer), accepted))
    {steps : List Step} (lasting : accepted.AtRestarts Backend.Lasts steps) (now : Timestamp) :
    (mode.kind? ≠ some .backfill → (accepted.run steps).isOpen = true →
      (accepted.run steps).ledger.verifiedChain.isSome →
      (accepted.run steps).ledger.backend.faults.get = none →
      ∃ again, (accepted.run steps).perform now (.commitBatch processor mode batch events) =
          (some (.ok (.batch ⟨if mode.keepsProgress then .stale else .skipped,
            0, (coalesce events).length⟩)), again) ∧
        again.ledger.backend = (accepted.run steps).ledger.backend) ∧
    ∀ processor' mode' batch' outcome again,
      (accepted.run steps).perform now (.commitBatch processor' mode' batch' events) =
        (some (.ok (.batch outcome)), again) →
      outcome.events = ⟨0, (coalesce events).length⟩ ∧
        ∀ bytes, IsIdentityKey bytes → again.ledger.contents.get? bytes =
          (accepted.run steps).ledger.contents.get? bytes := by
  obtain ⟨first, answered, -⟩ := Ledger.answering_eq_ok (perform_ok committed)
  have settled : (accepted.run steps).ledger.contents.HasSettled processor mode batch events :=
    (Ledger.hasSettled_of_commitBatch answered).of_givesWay
      fun key versioned => givesWay_run lasting versioned
  exact ⟨exists_perform_of_hasSettled settled,
    fun _ _ _ _ _ again => stale_of_perform_of_reached settled.events again⟩

end Session

/-! ### A batch that is replayed after a backfill and a restart -/

namespace ReplayedBatch

/-- A link, and a newer fact about the same link. -/
def events : List IdentityEvent :=
  [.link ⟨"0x1", "0xab", true, 3⟩, .link ⟨"0x1", "0xab", false, 4⟩]

/-- A batch of a live run. -/
def batch : BatchInfo := ⟨0, 5, some 7⟩

/-- A ledger in memory that has verified its chain. -/
def session : Session :=
  (Session.start .inMemory .zero).2.run [.call 1 (.verifyChain 1)]

/-- The batch is committed. -/
def accepted : Session := (session.perform 2 (.commitBatch "p" .standard batch events)).2

/-- A backfill begins anew twice and comes to the link again, writes fail, and the process is
restarted. -/
def between : List Step :=
  [.call 3 (.resolveRange "p" (.backfill "b" 0 none true)),
    .call 4 (.commitBatch "p" (.backfill "b" 0 none true) ⟨0, 9, none⟩
      [.link ⟨"0x1", "0xab", true, 8⟩]),
    .call 5 (.resolveRange "p" (.backfill "b" 0 none true)),
    .disturb { write := some (.io "no space left") }, .restart, .call 6 (.verifyChain 1)]

/-- Writes fail, and still the batch is answered when it is committed again. -/
theorem replay_batch : ∃ again,
    (accepted.run between).perform 7 (.commitBatch "p" .standard batch events) =
        (some (.ok (.batch ⟨.stale, 0, 1⟩)), again) ∧
      again.ledger.backend = (accepted.run between).ledger.backend := by
  have answered : (session.perform 2 (.commitBatch "p" .standard batch events)).1 =
      some (.ok (.batch ⟨.advanced, 1, 0⟩)) := by decide +kernel
  have committed : session.perform 2 (.commitBatch "p" .standard batch events) =
      (some (.ok (.batch ⟨.advanced, 1, 0⟩)), accepted) := Prod.ext answered rfl
  have lasting : accepted.AtRestarts Backend.Lasts between :=
    Session.lasting_of_home_none (by decide +kernel)
  exact (Session.replay_of_commit committed lasting 7).1 nofun
    (by decide +kernel) (by decide +kernel) (by decide +kernel)

end ReplayedBatch

end IngestLedger
