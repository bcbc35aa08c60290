import IngestLedger.Proofs.IdentityTables
import IngestLedger.Proofs.Writing

/-!
# Applying events to the facts of a store

Over a store that represents facts, an event is planned as stale when its row holds a fact that is
as new, and otherwise as the two entries that make it the fact of its row. A batch of events of
different rows is planned event by event against the store as it was, and comes out as if its
events had been applied one after another.

Main statements:

* `Ledger.planEvent_cases`, `Ledger.planEvent_ok`: what a planned event writes, over any store and
  over one that represents facts.
* `Ledger.planEvents_keeps`: what a planned batch has from its events.
* `Ledger.planEvents_ok`: the facts after the entries of a planned batch.
* `Ledger.exists_planEvents`: a batch can be planned when its events can be stored.
-/

namespace IngestLedger

/-- The table whose row an event is for. -/
def IdentityEvent.rowTable : IdentityEvent → RowTable
  | link _ => .accountLinks
  | member _ => .memberships

/-- An event that can be stored: its components can stand in a key, and its texts are not too long
for a record. -/
def IdentityEvent.IsStorable (event : IdentityEvent) : Prop :=
  ∃ row index value, event.IsStoredAs row index value

theorem IdentityEvent.isStorable_iff {event : IdentityEvent} : event.IsStorable ↔
    (∀ c ∈ event.key.components, Nameable c.text) ∧ event.record.isOk = true := by
  rw [← Key.exists_bytes_iff]
  constructor
  · rintro ⟨row, index, value, written⟩
    exact ⟨⟨row, written.row_eq⟩, by rw [written.value_eq]; rfl⟩
  · rintro ⟨⟨row, hrow⟩, encoded⟩
    obtain ⟨index, hindex⟩ := Key.exists_bytes_reversed_iff.2 ⟨row, hrow⟩
    cases hvalue : event.record with
    | error e => rw [hvalue] at encoded; cases encoded
    | ok value => exact ⟨row, index, value, hrow, hindex, hvalue⟩

instance (event : IdentityEvent) : Decidable event.IsStorable :=
  decidable_of_iff _ IdentityEvent.isStorable_iff.symm

namespace Ledger

variable {ledger : Ledger} {facts : Facts} {event : IdentityEvent} {row : Bytes}

/-- The event in the row of an event, under the key of that row. -/
def readFact (ledger : Ledger) (event : IdentityEvent) (row : Bytes) :
    Except LedgerError (Option IdentityEvent) :=
  match event with
  | .link _ => (ledger.readRow AccountLink row).map (Option.map .link)
  | .member _ => (ledger.readRow Membership row).map (Option.map .member)

/-- Links and memberships are planned in one way. -/
theorem planEvent_eq (ledger : Ledger) (event : IdentityEvent) :
    ledger.planEvent event = do
      let row ← keyBytes event.key
      let index ← keyBytes event.key.reversed
      let stored ← ledger.readFact event row
      if stored.any fun old => event.version ≤ old.version then
        return (.stale, .count (.staleIgnored event.rowTable))
      else
        let value ← event.record
        return (.applied, ⟨[(row, value), (index, [])], [.identityWritten event.rowTable]⟩) := by
  cases event with
  | link link =>
    simp only [planEvent, planLink, IdentityEvent.key, Key.reversed]
    refine bind_congr fun row => bind_congr fun index => ?_
    simp only [readFact]
    cases ledger.readRow AccountLink row with
    | error e => rfl
    | ok stored => cases stored <;> rfl
  | member member =>
    simp only [planEvent, planMember, IdentityEvent.key, Key.reversed]
    refine bind_congr fun row => bind_congr fun index => ?_
    simp only [readFact]
    cases ledger.readRow Membership row with
    | error e => rfl
    | ok stored => cases stored <;> rfl

/-- What planning an event comes to, over any store: its row is at least as new, or it is put in
place of an older one. -/
theorem planEvent_cases {outcome : ApplyOutcome} {changes : Changes}
    (planned : ledger.planEvent event = .ok (outcome, changes)) :
    ∃ row index stored, event.key.bytes = .ok row ∧ event.key.reversed.bytes = .ok index ∧
      ledger.readFact event row = .ok stored ∧
      ((∃ old, stored = some old ∧ event.version ≤ old.version) ∧ outcome = .stale ∧
          changes = .count (.staleIgnored event.rowTable) ∨
        (∀ old, stored = some old → old.version < event.version) ∧ outcome = .applied ∧
          ∃ value, event.record = .ok value ∧
            changes = ⟨[(row, value), (index, [])], [.identityWritten event.rowTable]⟩) := by
  rw [planEvent_eq] at planned
  obtain ⟨row, hrow, planned⟩ := bind_eq_ok_iff.1 planned
  obtain ⟨index, hindex, planned⟩ := bind_eq_ok_iff.1 planned
  obtain ⟨stored, read, planned⟩ := bind_eq_ok_iff.1 planned
  rw [keyBytes_eq_ok_iff] at hrow hindex
  refine ⟨row, index, stored, hrow, hindex, read, ?_⟩
  split at planned
  · rename_i stale
    obtain ⟨rfl, rfl⟩ := Prod.mk.inj (Except.ok.inj planned)
    obtain ⟨old, held, le⟩ := (Option.any_eq_true _ _).1 stale
    exact .inl ⟨⟨old, held, of_decide_eq_true le⟩, rfl, rfl⟩
  · rename_i fresh
    obtain ⟨value, hvalue, planned⟩ := bind_eq_ok_iff.1 planned
    obtain ⟨rfl, rfl⟩ := Prod.mk.inj (Except.ok.inj planned)
    refine .inr ⟨fun old held => ?_, rfl, value, hvalue, rfl⟩
    rw [held] at fresh
    simpa using fresh

/-- Reading the row of an event gives its fact, unless the store cannot be read. -/
theorem readFact_eq (h : ledger.contents.Represents facts) (hrow : event.key.bytes = .ok row) :
    ledger.readFact event row =
      match ledger.backend.faults.get with
      | some e => .error (.ofStore e)
      | none => .ok (facts event.key) := by
  have stored := h.get?_row hrow
  unfold Ledger.contents at stored
  cases fault : ledger.backend.faults.get with
  | some e => cases event <;> simp [readFact, readRow, Backend.get, fault, Except.map]
  | none =>
    rcases stored with ⟨fact, absent⟩ | ⟨held, value, fact, encoded, found⟩
    · rw [fact]
      cases event <;> simp [readFact, readRow, Backend.get, fault, absent, Except.map]
    · rw [fact]
      have same := h.key_eq fact
      cases event <;> cases held <;> simp only [IdentityEvent.key, reduceCtorEq] at same
      · simp [readFact, readRow, Backend.get, fault, found, Record.decode_encode encoded,
          Except.map]
      · simp [readFact, readRow, Backend.get, fault, found, Record.decode_encode encoded,
          Except.map]

/-- What planning an event comes to, over a store that represents facts. -/
theorem planEvent_ok (h : ledger.contents.Represents facts) {outcome : ApplyOutcome}
    {changes : Changes} (planned : ledger.planEvent event = .ok (outcome, changes)) :
    (outcome = .stale ∧ changes = .count (.staleIgnored event.rowTable) ∧
      ∃ old, facts event.key = some old ∧ event.version ≤ old.version) ∨
    (outcome = .applied ∧ (∀ old, facts event.key = some old → old.version < event.version) ∧
      ∃ row index value, event.IsStoredAs row index value ∧
        changes = ⟨[(row, value), (index, [])], [.identityWritten event.rowTable]⟩) := by
  obtain ⟨row, index, stored, hrow, hindex, read, cases⟩ := planEvent_cases planned
  rw [readFact_eq h hrow] at read
  split at read
  · cases read
  · obtain rfl := Except.ok.inj read
    rcases cases with ⟨stale, rfl, rfl⟩ | ⟨fresh, rfl, value, hvalue, rfl⟩
    · exact .inl ⟨rfl, rfl, stale⟩
    · exact .inr ⟨rfl, fresh, row, index, value, ⟨hrow, hindex, hvalue⟩, rfl⟩

/-- The entries of a planned event make it the fact of its row, if it is newer. They may be written
to a store that has been changed in other rows since. -/
theorem represents_of_planEvent (h : ledger.contents.Represents facts) {outcome : ApplyOutcome}
    {changes : Changes} (planned : ledger.planEvent event = .ok (outcome, changes))
    {store : Store} {current : Facts} (represents : store.Represents current)
    (agree : current event.key = facts event.key) :
    (store.insertAll changes.entries).Represents (current.supersede event) := by
  rcases planEvent_ok h planned with ⟨-, rfl, old, fact, stale⟩ | ⟨-, fresh, written⟩
  · rw [Facts.supersede_of_stale (agree.trans fact) stale]
    exact represents
  · obtain ⟨row, index, value, written, rfl⟩ := written
    rw [Facts.supersede_of_fresh fun old fact => fresh old (agree.symm.trans fact)]
    exact represents.insertAll_event written

/-- A batch is planned event by event. -/
theorem planEvents_cons_ok {events : List IdentityEvent} {tally : ApplyTally} {changes : Changes}
    (planned : ledger.planEvents (event :: events) = .ok (tally, changes)) :
    ∃ outcome first others rest, ledger.planEvent event = .ok (outcome, first) ∧
      ledger.planEvents events = .ok (others, rest) ∧ tally = others.add outcome ∧
      changes = first ++ rest := by
  obtain ⟨⟨outcome, first⟩, plannedFirst, planned⟩ := bind_eq_ok_iff.1 planned
  obtain ⟨⟨others, rest⟩, plannedRest, planned⟩ := bind_eq_ok_iff.1 planned
  obtain ⟨rfl, rfl⟩ := Prod.mk.inj (Except.ok.inj planned)
  exact ⟨outcome, first, others, rest, plannedFirst, plannedRest, rfl, rfl⟩

theorem planEvents_cons {events : List IdentityEvent} {outcome : ApplyOutcome} {tally : ApplyTally}
    {first rest : Changes} (plannedFirst : ledger.planEvent event = .ok (outcome, first))
    (plannedRest : ledger.planEvents events = .ok (tally, rest)) :
    ledger.planEvents (event :: events) = .ok (tally.add outcome, first ++ rest) :=
  bind_eq_ok_iff.2 ⟨_, plannedFirst, bind_eq_ok_iff.2 ⟨_, plannedRest, rfl⟩⟩

/-- What holds of nothing under no keys, and is kept when changes follow one another under the keys
of both, holds of a planned batch under the keys of its events, if it does of each event. -/
theorem planEvents_keeps (holds : Changes → List Key → Prop) (keys : IdentityEvent → List Key)
    (nothing : holds .nothing [])
    (append : ∀ {c d inside others}, holds c inside → holds d others →
      holds (c ++ d) (inside ++ others))
    (each : ∀ {event outcome changes}, ledger.planEvent event = .ok (outcome, changes) →
      holds changes (keys event))
    {events : List IdentityEvent} {tally : ApplyTally} {changes : Changes}
    (planned : ledger.planEvents events = .ok (tally, changes)) :
    holds changes (events.flatMap keys) := by
  induction events generalizing tally changes with
  | nil =>
    obtain ⟨-, rfl⟩ := Prod.mk.inj (Except.ok.inj planned)
    exact nothing
  | cons event events ih =>
    obtain ⟨outcome, first, others, rest, plannedFirst, plannedRest, -, rfl⟩ :=
      planEvents_cons_ok planned
    exact append (each plannedFirst) (ih plannedRest)

/-- A batch can be planned when each of its events can. -/
theorem exists_planEvents_of_forall {events : List IdentityEvent}
    (each : ∀ event ∈ events, ∃ outcome changes, ledger.planEvent event = .ok (outcome, changes)) :
    ∃ tally changes, ledger.planEvents events = .ok (tally, changes) := by
  induction events with
  | nil => exact ⟨_, _, rfl⟩
  | cons event events ih =>
    obtain ⟨outcome, first, plannedFirst⟩ := each event List.mem_cons_self
    obtain ⟨tally, rest, plannedRest⟩ := ih fun e he => each e (List.mem_cons_of_mem _ he)
    exact ⟨tally.add outcome, first ++ rest, planEvents_cons plannedFirst plannedRest⟩

/-- The entries of a planned batch change the facts as if its events had been applied one after
another. -/
theorem planEvents_ok (h : ledger.contents.Represents facts) {events : List IdentityEvent}
    (distinct : (events.map IdentityEvent.key).Nodup) {tally : ApplyTally} {changes : Changes}
    (planned : ledger.planEvents events = .ok (tally, changes))
    {store : Store} {current : Facts} (represents : store.Represents current)
    (agree : ∀ event ∈ events, current event.key = facts event.key) :
    (store.insertAll changes.entries).Represents (current.supersedeAll events) := by
  -- the rest of a batch is planned against the store as it was before the batch
  induction events generalizing tally changes store current with
  | nil =>
    obtain ⟨-, rfl⟩ := Prod.mk.inj (Except.ok.inj planned)
    exact represents
  | cons event events ih =>
    obtain ⟨away, distinct⟩ := List.nodup_cons.1 distinct
    obtain ⟨outcome, first, others, rest, plannedFirst, plannedRest, -, rfl⟩ :=
      planEvents_cons_ok planned
    rw [Changes.entries_append, Store.insertAll_append]
    have head := represents_of_planEvent h plannedFirst represents
      (agree event List.mem_cons_self)
    refine ih distinct plannedRest head fun other member => ?_
    have different : event.key ≠ other.key := fun same =>
      away (same ▸ List.mem_map_of_mem member)
    rw [Facts.supersede_of_ne different]
    exact agree other (List.mem_cons_of_mem _ member)

/-- What is planned for an event was read from the store. -/
theorem reads_of_planEvents (h : ledger.contents.Represents facts) {events : List IdentityEvent}
    (some_event : events ≠ []) {tally : ApplyTally} {changes : Changes}
    (planned : ledger.planEvents events = .ok (tally, changes)) :
    ledger.backend.faults.get = none := by
  obtain ⟨event, others, rfl⟩ := List.exists_cons_of_ne_nil some_event
  obtain ⟨outcome, first, tally', rest, plannedFirst, -⟩ := planEvents_cons_ok planned
  rw [planEvent_eq] at plannedFirst
  obtain ⟨row, hrow, plannedFirst⟩ := bind_eq_ok_iff.1 plannedFirst
  obtain ⟨index, -, plannedFirst⟩ := bind_eq_ok_iff.1 plannedFirst
  obtain ⟨stored, read, -⟩ := bind_eq_ok_iff.1 plannedFirst
  rw [readFact_eq h (keyBytes_eq_ok_iff.1 hrow)] at read
  split at read
  · cases read
  · assumption

/-- An event that can be stored can be planned, when the store can be read. -/
theorem exists_planEvent (h : ledger.contents.Represents facts)
    (reads : ledger.backend.faults.get = none) (storable : event.IsStorable) :
    ∃ outcome changes, ledger.planEvent event = .ok (outcome, changes) := by
  obtain ⟨row, index, value, written⟩ := storable
  have read := readFact_eq h written.row_eq
  rw [reads] at read
  rw [planEvent_eq, keyBytes_eq_ok_iff.2 written.row_eq, keyBytes_eq_ok_iff.2 written.index_eq,
    written.value_eq]
  simp only [bind, Except.bind, read]
  split
  · exact ⟨_, _, rfl⟩
  · exact ⟨_, _, rfl⟩

theorem exists_planEvents (h : ledger.contents.Represents facts)
    (reads : ledger.backend.faults.get = none) {events : List IdentityEvent}
    (storable : ∀ event ∈ events, event.IsStorable) :
    ∃ tally changes, ledger.planEvents events = .ok (tally, changes) :=
  exists_planEvents_of_forall fun event member => exists_planEvent h reads (storable event member)

/-- A batch with nothing to write holds only stale events. -/
theorem stale_of_planEvents (h : ledger.contents.Represents facts) {events : List IdentityEvent}
    {tally : ApplyTally} {changes : Changes}
    (planned : ledger.planEvents events = .ok (tally, changes)) (nothing : changes.entries = []) :
    ∀ event ∈ events, ∃ old, facts event.key = some old ∧ event.version ≤ old.version := by
  induction events generalizing tally changes with
  | nil => simp
  | cons event events ih =>
    obtain ⟨outcome, first, others, rest, plannedFirst, plannedRest, -, rfl⟩ :=
      planEvents_cons_ok planned
    obtain ⟨emptyFirst, emptyRest⟩ := List.append_eq_nil_iff.1 nothing
    intro other member
    rcases List.mem_cons.1 member with rfl | member
    · rcases planEvent_ok h plannedFirst with ⟨-, -, stale⟩ | ⟨-, -, row, index, value, -, rfl⟩
      · exact stale
      · cases emptyFirst
    · exact ih plannedRest emptyRest other member

end Ledger

end IngestLedger
