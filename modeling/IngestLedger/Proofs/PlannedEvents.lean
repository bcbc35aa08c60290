import IngestLedger.Proofs.NewerRows

/-!
# What planned events count and leave

The events of a batch are planned one by one, each for its own row. An event whose row is as new is
counted as stale and changes nothing; any other one is counted as written, and its row tells its
version from then on. So what is counted for a batch can be told from the versions in the store
before it, and the rows that have changed from those after it.

Main definitions:

* `IdentityEvent.counter`: what is counted for an event over a store.

Main statements:

* `Ledger.counted_of_planEvents`, `Ledger.tally_of_planEvents`: what is counted for a batch.
* `Ledger.version?_of_fresh`, `Ledger.version?_of_reached`: the versions after a batch.
-/

namespace IngestLedger

theorem Store.hasReached_iff {store : Store} {key : Key} {version : Version} :
    store.HasReached key version ↔ (store.version? key).any (version ≤ ·) = true := by
  rw [Option.any_eq_true]
  simp only [decide_eq_true_eq]
  rfl

instance (store : Store) (key : Key) (version : Version) :
    Decidable (store.HasReached key version) :=
  decidable_of_iff _ Store.hasReached_iff.symm

/-- No row stands under the key of an index entry. -/
theorem Store.version?_reversed (store : Store) (event : IdentityEvent) :
    store.version? event.key.reversed = none := by
  cases event <;> exact Option.bind_eq_none_iff.2 fun _ _ => rfl

/-- What is counted for an event over a store. -/
def IdentityEvent.counter (store : Store) (event : IdentityEvent) : Counter :=
  if store.HasReached event.key event.version then .staleIgnored event.rowTable
  else .identityWritten event.rowTable

namespace Ledger

variable {ledger : Ledger} {event : IdentityEvent} {events : List IdentityEvent}
  {tally : ApplyTally} {changes : Changes}

/-- What planning an event comes to, told by the version of its row: it is counted as stale, or it
is counted as written and tells its version. -/
theorem planEvent_reached {outcome : ApplyOutcome}
    (planned : ledger.planEvent event = .ok (outcome, changes)) :
    ledger.contents.HasReached event.key event.version ∧ outcome = .stale ∧
        changes = .count (.staleIgnored event.rowTable) ∨
      ¬ ledger.contents.HasReached event.key event.version ∧ outcome = .applied ∧
        changes.counted = [.identityWritten event.rowTable] ∧
        ∀ store : Store, (store.insertAll changes.entries).version? event.key =
          some event.version := by
  obtain ⟨row, index, stored, hrow, hindex, read, ⟨⟨old, held, le⟩, stale, counted⟩ |
    ⟨newer, applied, value, encoded, rfl⟩⟩ := planEvent_cases planned
  · obtain ⟨-, told⟩ := version?_of_readFact hrow read
    rw [held] at told
    exact .inl ⟨⟨old.version, told, le⟩, stale, counted⟩
  · obtain ⟨-, told⟩ := version?_of_readFact hrow read
    refine .inr ⟨?_, applied, rfl, fun store => ?_⟩
    · rintro ⟨reached, found, le⟩
      obtain ⟨old, held, rfl⟩ := Option.map_eq_some_iff.1 (told.symm.trans found)
      exact UInt64.not_le.2 (newer old held) le
    · have apart : row ≠ index :=
        IdentityEvent.IsStoredAs.row_ne_index ⟨hrow, hindex, encoded⟩ ⟨hrow, hindex, encoded⟩
      rw [Store.version?, Store.value?_eq hrow, Store.insertAll_cons, Store.insertAll_cons,
        Store.insertAll_nil, Store.get?_insert, if_neg apart, Store.get?_insert, if_pos rfl,
        Option.bind_some, event.versionIn?_of_record encoded]

/-- Each event of a batch is counted by the version of its row before the batch. -/
theorem counted_of_planEvents (planned : ledger.planEvents events = .ok (tally, changes)) :
    changes.counted = events.map (IdentityEvent.counter ledger.contents) := by
  induction events generalizing tally changes with
  | nil =>
    obtain ⟨-, rfl⟩ := Prod.mk.inj (Except.ok.inj planned)
    rfl
  | cons event events ih =>
    obtain ⟨outcome, first, others, rest, plannedFirst, plannedRest, -, rfl⟩ :=
      planEvents_cons_ok planned
    rw [Changes.counted_append, ih plannedRest, List.map_cons, IdentityEvent.counter]
    rcases planEvent_reached plannedFirst with ⟨reached, -, rfl⟩ | ⟨fresh, -, counted, -⟩
    · rw [if_pos reached]
      rfl
    · rw [if_neg fresh, counted]
      rfl

theorem tally_of_planEvents (planned : ledger.planEvents events = .ok (tally, changes)) :
    tally.applied =
        events.countP (fun event => ¬ ledger.contents.HasReached event.key event.version) ∧
      tally.stale =
        events.countP (fun event => ledger.contents.HasReached event.key event.version) := by
  induction events generalizing tally changes with
  | nil =>
    obtain ⟨rfl, -⟩ := Prod.mk.inj (Except.ok.inj planned)
    exact ⟨rfl, rfl⟩
  | cons event events ih =>
    obtain ⟨outcome, first, others, rest, plannedFirst, plannedRest, rfl, -⟩ :=
      planEvents_cons_ok planned
    obtain ⟨applied, stale⟩ := ih plannedRest
    rcases planEvent_reached plannedFirst with ⟨reached, rfl, -⟩ | ⟨fresh, rfl, -⟩
    · simp [ApplyTally.add, reached, applied, stale]
    · simp [ApplyTally.add, fresh, applied, stale]

/-- A row that no event of a batch makes newer tells the version that it told before. -/
theorem version?_of_reached (planned : ledger.planEvents events = .ok (tally, changes)) {key : Key}
    (reached : ∀ event ∈ events, event.key = key →
      ledger.contents.HasReached event.key event.version) (store : Store) :
    (store.insertAll changes.entries).version? key = store.version? key := by
  induction events generalizing tally changes store with
  | nil =>
    obtain ⟨-, rfl⟩ := Prod.mk.inj (Except.ok.inj planned)
    rfl
  | cons event events ih =>
    obtain ⟨outcome, first, others, rest, plannedFirst, plannedRest, -, rfl⟩ :=
      planEvents_cons_ok planned
    rw [Changes.entries_append, Store.insertAll_append,
      ih plannedRest fun other member => reached other (List.mem_cons_of_mem _ member)]
    rcases planEvent_reached plannedFirst with ⟨-, -, rfl⟩ | ⟨fresh, -, -, -⟩
    · rfl
    · have written : store.WrittenWithin event.keys (store.insertAll first.entries) :=
        ⟨first, within_planEvent plannedFirst, rfl⟩
      by_cases index : key = event.key.reversed
      · rw [index, Store.version?_reversed, Store.version?_reversed]
      · refine Store.version?_congr (written.value?_eq fun inside => ?_)
        rcases List.mem_pair.1 inside with rfl | rfl
        · exact fresh (reached event List.mem_cons_self rfl)
        · exact index rfl

/-- A row that an event of a batch makes newer tells the version of the event. -/
theorem version?_of_fresh (distinct : (events.map IdentityEvent.key).Nodup)
    (planned : ledger.planEvents events = .ok (tally, changes)) (member : event ∈ events)
    (fresh : ¬ ledger.contents.HasReached event.key event.version) (store : Store) :
    (store.insertAll changes.entries).version? event.key = some event.version := by
  induction events generalizing tally changes store with
  | nil => cases member
  | cons head events ih =>
    obtain ⟨away, distinct⟩ := List.nodup_cons.1 distinct
    obtain ⟨outcome, first, others, rest, plannedFirst, plannedRest, -, rfl⟩ :=
      planEvents_cons_ok planned
    rw [Changes.entries_append, Store.insertAll_append]
    rcases List.mem_cons.1 member with rfl | member
    · -- the other events are for other rows
      have outside : ∀ other ∈ events, other.key = event.key →
          ledger.contents.HasReached other.key other.version :=
        fun other later same => absurd (same ▸ List.mem_map_of_mem later) away
      rw [version?_of_reached plannedRest outside]
      rcases planEvent_reached plannedFirst with ⟨reached, -⟩ | ⟨-, -, -, version⟩
      · exact absurd reached fresh
      · exact version store
    · exact ih distinct plannedRest member _

end Ledger

end IngestLedger
