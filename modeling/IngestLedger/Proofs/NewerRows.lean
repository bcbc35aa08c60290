import IngestLedger.Proofs.Histories

/-!
# Rows that give way to newer ones only

The rows of a processor, of a link and of a membership tell a version. Such a row is written only
after the one before it was read, and only when it is newer. So it gives way to rows of greater
versions alone, in calls, failures and restarts of any kind and over a store with any contents; and
what cannot be read as a row stays as it is.

Main definitions:

* `Store.version?`: the version that the row of a key tells.
* `Store.GivesWay`: a key keeps its value, or has a newer row instead of one that can be read.

Main statements:

* `Ledger.givesWay_perform`, `Session.givesWay_run`: rows give way to newer ones only.
-/

namespace IngestLedger

/-! ### Versions of rows -/

/-- The tables whose rows give way to newer ones only. -/
def Table.versioned : List Table := [.processors, .accountLinks, .memberships]

/-- The version that a value tells, as the row of a key. -/
def Key.versionIn? (value : Bytes) : Key → Option Version
  | processor _ => (Record.decode [] value : Except LedgerError ProcessorRow).toOption.map
      ProcessorRow.lastVersion
  | accountLink .. => (Record.decode [] value : Except LedgerError AccountLink).toOption.map
      AccountLink.version
  | membership .. => (Record.decode [] value : Except LedgerError Membership).toOption.map
      Membership.version
  | _ => none

theorem ProcessorRow.versionIn?_of_encode {row : ProcessorRow} {value : Bytes}
    (encoded : Record.encode row = .ok value) (name : String) :
    (Key.processor name).versionIn? value = some row.lastVersion := by
  rw [Key.versionIn?, Record.decode_encode encoded []]
  rfl

theorem IdentityEvent.versionIn?_of_record {event : IdentityEvent} {value : Bytes}
    (encoded : event.record = .ok value) : event.key.versionIn? value = some event.version := by
  cases event with
  | link row =>
    rw [key, Key.versionIn?, Record.decode_encode encoded []]
    rfl
  | member row =>
    rw [key, Key.versionIn?, Record.decode_encode encoded []]
    rfl

theorem IdentityEvent.table_key_mem_versioned (event : IdentityEvent) :
    event.key.table ∈ Table.versioned := by
  cases event <;> simp [key, Key.table, Table.versioned]

namespace Store

/-- The version that the row of a key tells. -/
def version? (store : Store) (key : Key) : Option Version :=
  (store.value? key).bind key.versionIn?

/-- There is no row under a key, or one that can be read. -/
def IsReadable (store : Store) (key : Key) : Prop :=
  store.value? key = none ∨ (store.version? key).isSome

/-- A key keeps its value, or has a newer row instead of one that can be read. -/
def GivesWay (before after : Store) (key : Key) : Prop :=
  after.value? key = before.value? key ∨ ∃ version, after.version? key = some version ∧
    before.IsReadable key ∧ ∀ old, before.version? key = some old → old < version

/-- The row of a key is at least as new as a version. -/
def HasReached (store : Store) (key : Key) (version : Version) : Prop :=
  ∃ reached, store.version? key = some reached ∧ version ≤ reached

variable {before between after : Store} {key : Key} {version : Version}

theorem version?_congr (same : after.value? key = before.value? key) :
    after.version? key = before.version? key := by
  unfold version?
  rw [same]

theorem IsReadable.congr (h : before.IsReadable key)
    (same : after.value? key = before.value? key) : after.IsReadable key := by
  unfold IsReadable
  rw [version?_congr same, same]
  exact h

namespace GivesWay

theorem refl (store : Store) (key : Key) : store.GivesWay store key := .inl rfl

theorem trans (h : before.GivesWay between key) (h' : between.GivesWay after key) :
    before.GivesWay after key := by
  rcases h' with kept | ⟨version, here, readable, newer⟩
  · unfold GivesWay
    rw [version?_congr kept, kept]
    exact h
  · rcases h with kept | ⟨middle, found, readable', newer'⟩
    · refine .inr ⟨version, here, readable.congr kept.symm, ?_⟩
      rw [← version?_congr kept]
      exact newer
    · exact .inr ⟨version, here, readable', fun old held =>
        UInt64.lt_trans (newer' old held) (newer middle found)⟩

theorem isReadable (h : before.GivesWay after key) (readable : before.IsReadable key) :
    after.IsReadable key := by
  rcases h with kept | ⟨version, here, -, -⟩
  · exact readable.congr kept
  · exact .inr (by rw [here]; rfl)

/-- The version of a row never decreases. -/
theorem hasReached (h : before.GivesWay after key) (reached : before.HasReached key version) :
    after.HasReached key version := by
  obtain ⟨old, held, le⟩ := reached
  rcases h with kept | ⟨new, here, -, newer⟩
  · exact ⟨old, (version?_congr kept).trans held, le⟩
  · exact ⟨new, here, UInt64.le_trans le (UInt64.le_of_lt (newer old held))⟩

end GivesWay

theorem WrittenWithin.givesWay {keys : List Key} (h : WrittenWithin keys before after)
    (outside : key ∉ keys) : before.GivesWay after key := .inl (h.value?_eq outside)

end Store

/-! ### Changes that put newer rows -/

/-- Changes that put rows under keys of a store only where they are newer than what can be read. -/
def Changes.Renew (store : Store) (changes : Changes) : Prop :=
  ∀ e ∈ changes.entries, ∀ key : Key, key.bytes = .ok e.1 → key.table ∈ Table.versioned →
    ∃ version, key.versionIn? e.2 = some version ∧ store.IsReadable key ∧
      ∀ old, store.version? key = some old → old < version

namespace Changes

variable {store : Store} {c d : Changes}

theorem renew_of_entries_nil (h : c.entries = []) : c.Renew store := by
  intro e member
  rw [h] at member
  cases member

theorem Renew.append (hc : c.Renew store) (hd : d.Renew store) : (c ++ d).Renew store := by
  intro e member
  rcases List.mem_append.1 member with member | member
  · exact hc e member
  · exact hd e member

/-- Rows of other tables do not matter. -/
theorem Within.renew {keys : List Key} (h : c.Within keys)
    (other : ∀ key ∈ keys, key.table ∉ Table.versioned) : c.Renew store := by
  intro e member key hkey versioned
  obtain ⟨written, inside, hwritten, -⟩ := h e member
  rw [Key.bytes_injective hkey hwritten] at versioned
  exact absurd versioned (other written inside)

theorem Renew.givesWay (h : c.Renew store) {key : Key} (versioned : key.table ∈ Table.versioned) :
    store.GivesWay (store.insertAll c.entries) key := by
  unfold Store.GivesWay Store.version? Store.value?
  cases hkey : key.bytes with
  | error fault => exact .inl rfl
  | ok bytes =>
    rcases store.get?_insertAll c.entries bytes with kept | ⟨e, member, same, value⟩
    · exact .inl kept
    · obtain ⟨version, told, readable, newer⟩ := h e member key (same ▸ hkey) versioned
      refine .inr ⟨version, ?_, readable, ?_⟩
      · simp only [value, Option.bind_some, told]
      · intro old held
        refine newer old ?_
        rw [Store.version?, Store.value?_eq hkey]
        exact held

end Changes

/-! ### Planned changes -/

namespace Ledger

variable {ledger : Ledger} {now : Timestamp} {changes : Changes}

/-- The version that is read under a key. -/
theorem version?_of_readRow {α : Type} [Row α] {tells : α → Version} {key : Key}
    (told : ∀ value, key.versionIn? value =
      (Record.decode [] value : Except LedgerError α).toOption.map tells)
    {bytes : Bytes} {stored : Option α} (hkey : key.bytes = .ok bytes)
    (read : ledger.readRow α bytes = .ok stored) :
    ledger.contents.IsReadable key ∧ ledger.contents.version? key = stored.map tells := by
  rcases readRow_cases hkey read with ⟨none, rfl⟩ | ⟨value, row, found, rfl, decoded⟩
  · refine ⟨.inl none, ?_⟩
    rw [Store.version?, none]
    rfl
  · have version : ledger.contents.version? key = some (tells row) := by
      rw [Store.version?, found, Option.bind_some, told, decoded]
      rfl
    exact ⟨.inr (by rw [version]; rfl), version⟩

theorem version?_of_readFact {event : IdentityEvent} {row : Bytes} {stored : Option IdentityEvent}
    (hrow : event.key.bytes = .ok row) (read : ledger.readFact event row = .ok stored) :
    ledger.contents.IsReadable event.key ∧
      ledger.contents.version? event.key = stored.map IdentityEvent.version := by
  cases event with
  | link link =>
    cases found : ledger.readRow AccountLink row with
    | error e => simp [readFact, found, Except.map] at read
    | ok held =>
      simp only [readFact, found, Except.map, Except.ok.injEq] at read
      obtain ⟨readable, version⟩ := version?_of_readRow (fun _ => rfl) hrow found
      refine ⟨readable, version.trans ?_⟩
      rw [← read, Option.map_map]
      rfl
  | member member =>
    cases found : ledger.readRow Membership row with
    | error e => simp [readFact, found, Except.map] at read
    | ok held =>
      simp only [readFact, found, Except.map, Except.ok.injEq] at read
      obtain ⟨readable, version⟩ := version?_of_readRow (fun _ => rfl) hrow found
      refine ⟨readable, version.trans ?_⟩
      rw [← read, Option.map_map]
      rfl

/-- What can be read under a key is read, unless reading fails. -/
theorem exists_readRow_of_isReadable {α : Type} [Row α] (tells : α → Version) {key : Key}
    (told : ∀ value, key.versionIn? value =
      (Record.decode [] value : Except LedgerError α).toOption.map tells)
    {bytes : Bytes} (hkey : key.bytes = .ok bytes) (reads : ledger.backend.faults.get = none)
    (readable : ledger.contents.IsReadable key) :
    ∃ stored, ledger.readRow α bytes = .ok stored := by
  cases found : ledger.backend.contents.get? bytes with
  | none => exact ⟨none, by simp only [readRow, Backend.get, reads, found]⟩
  | some value =>
    have stored : ledger.contents.value? key = some value := (Store.value?_eq hkey).trans found
    have tell : (key.versionIn? value).isSome := by
      rcases readable with free | version
      · rw [stored] at free
        cases free
      · rwa [Store.version?, stored, Option.bind_some] at version
    rw [told, Option.isSome_map, ← toOption_decode bytes value] at tell
    cases result : (Record.decode bytes value : Except LedgerError α) with
    | error e =>
      rw [result] at tell
      cases tell
    | ok row => exact ⟨some row, by simp only [readRow, Backend.get, reads, found, result]⟩

theorem exists_readFact_of_isReadable {event : IdentityEvent} {row : Bytes}
    (hrow : event.key.bytes = .ok row) (reads : ledger.backend.faults.get = none)
    (readable : ledger.contents.IsReadable event.key) :
    ∃ stored, ledger.readFact event row = .ok stored := by
  cases event with
  | link link =>
    obtain ⟨stored, read⟩ :=
      exists_readRow_of_isReadable AccountLink.version (fun _ => rfl) hrow reads readable
    exact ⟨stored.map .link, by simp only [readFact, read, Except.map]⟩
  | member member =>
    obtain ⟨stored, read⟩ :=
      exists_readRow_of_isReadable Membership.version (fun _ => rfl) hrow reads readable
    exact ⟨stored.map .member, by simp only [readFact, read, Except.map]⟩

theorem renew_planAdvance {processor : String} {version : Version} {time : Option Timestamp}
    {outcome : AdvanceOutcome}
    (planned : ledger.planAdvance now processor version time = .ok (outcome, changes)) :
    changes.Renew ledger.contents := by
  obtain ⟨bytes, stored, hkey, read, ⟨-, -, rfl⟩ | ⟨beyond, -, value, encoded, rfl⟩⟩ :=
    planAdvance_ok planned
  · exact Changes.renew_of_entries_nil rfl
  · rw [keyBytes_eq_ok_iff] at hkey
    obtain ⟨readable, told⟩ := version?_of_readRow (fun _ => rfl) hkey read
    intro e member key here _
    obtain rfl := List.mem_singleton.1 member
    obtain rfl := Key.bytes_injective here hkey
    refine ⟨version, ProcessorRow.versionIn?_of_encode encoded processor, readable, ?_⟩
    rw [told]
    exact beyond

theorem renew_planEvent {event : IdentityEvent} {outcome : ApplyOutcome}
    (planned : ledger.planEvent event = .ok (outcome, changes)) :
    changes.Renew ledger.contents := by
  obtain ⟨row, index, stored, hrow, hindex, read, ⟨-, -, rfl⟩ | ⟨fresh, -, value, encoded, rfl⟩⟩ :=
    planEvent_cases planned
  · exact Changes.renew_of_entries_nil rfl
  · obtain ⟨readable, told⟩ := version?_of_readFact hrow read
    intro e member key here versioned
    rcases List.mem_pair.1 member with rfl | rfl
    · obtain rfl := Key.bytes_injective here hrow
      refine ⟨event.version, event.versionIn?_of_record encoded, readable, fun old held => ?_⟩
      rw [told] at held
      obtain ⟨fact, found, rfl⟩ := Option.map_eq_some_iff.1 held
      exact fresh fact found
    · -- an index entry is in no table of rows
      rw [Key.bytes_injective here hindex] at versioned
      cases event <;>
        simp [IdentityEvent.key, Key.reversed, Key.table, Table.versioned] at versioned

theorem renew_planEvents {events : List IdentityEvent} {tally : ApplyTally}
    (planned : ledger.planEvents events = .ok (tally, changes)) :
    changes.Renew ledger.contents :=
  planEvents_keeps (fun c _ => c.Renew ledger.contents) IdentityEvent.keys
    (Changes.renew_of_entries_nil rfl) Changes.Renew.append renew_planEvent planned

theorem renew_planCheckpoint {processor : String} {batch : BatchInfo} {mode : RunMode}
    {outcome : CheckpointOutcome}
    (planned : ledger.planCheckpoint now processor batch mode = .ok (outcome, changes)) :
    changes.Renew ledger.contents := by
  rcases planCheckpoint_cases planned with ⟨initial, moved, rfl, advancing, rfl⟩ |
    ⟨id, initial, ending, overwrite, moved, rfl, advancing, rfl⟩ | ⟨start, ending, rfl, rfl, rfl⟩
  · exact renew_planAdvance advancing
  · refine (within_planBackfillAdvance advancing).renew fun key inside => ?_
    obtain rfl := List.mem_singleton.1 inside
    simp [Key.table, Table.versioned]
  · exact Changes.renew_of_entries_nil rfl

/-! ### Calls and histories -/

theorem givesWay_transact {α : Type} {planned : Except LedgerError (α × Changes)}
    (renew : ∀ answer changes, planned = .ok (answer, changes) → changes.Renew ledger.contents)
    {key : Key} (versioned : key.table ∈ Table.versioned) :
    ledger.contents.GivesWay (ledger.transact planned).2.contents key := by
  cases result : ledger.transact planned with
  | mk answer after =>
    cases answer with
    | error e =>
      rw [contents_of_transact_error result]
      exact .refl _ key
    | ok answer =>
      obtain ⟨changes, hplanned, contents, -⟩ := transact_ok result
      rw [contents]
      exact (renew answer changes hplanned).givesWay versioned

/-- In every call, a row that tells a version gives way to newer rows only. -/
theorem givesWay_perform (ledger : Ledger) (now : Timestamp) (call : Call) {key : Key}
    (versioned : key.table ∈ Table.versioned) :
    ledger.contents.GivesWay (ledger.perform now call).2.contents key := by
  have written := writtenWithin_perform ledger now call
  have elsewhere (other : ∀ table ∈ call.tables, table ∉ Table.versioned) :
      ledger.contents.GivesWay (ledger.perform now call).2.contents key :=
    written.givesWay fun inside => other _ (Call.table_mem_of_mem_footprint inside) versioned
  cases call with
  | advance processor version time =>
    refine givesWay_transact (fun outcome changes planned => ?_) versioned
    obtain ⟨-, -, planned⟩ := bind_eq_ok_iff.1 planned
    exact renew_planAdvance planned
  | apply event =>
    refine givesWay_transact (fun outcome changes planned => ?_) versioned
    obtain ⟨-, -, planned⟩ := bind_eq_ok_iff.1 planned
    exact renew_planEvent planned
  | commitBatch processor mode batch events =>
    refine givesWay_transact (fun outcome changes planned => ?_) versioned
    obtain ⟨-, -, planned⟩ := bind_eq_ok_iff.1 planned
    obtain ⟨⟨checkpoint, progress⟩, hprogress, planned⟩ := bind_eq_ok_iff.1 planned
    obtain ⟨⟨tally, rest⟩, hrest, planned⟩ := bind_eq_ok_iff.1 planned
    obtain ⟨-, rfl⟩ := Prod.mk.inj (Except.ok.inj planned)
    exact (renew_planCheckpoint hprogress).append (renew_planEvents hrest)
  | verifyChain chain => exact elsewhere (by simp [Call.tables, Table.versioned])
  | startOrResume name run =>
    exact elsewhere (by simp [Call.tables, ProgressKind.table, Table.versioned])
  | advanceBackfill name version time =>
    exact elsewhere (by simp [Call.tables, ProgressKind.table, Table.versioned])
  | resolveRange processor mode =>
    refine written.givesWay fun inside => ?_
    cases mode with
    | backfill id initial ending overwrite =>
      rw [BackfillRun.eq_of_mem_keys inside] at versioned
      simp [Key.table, Table.versioned] at versioned
    | live initial => cases inside
    | testing start ending => cases inside

end Ledger

namespace Session

theorem givesWay_step (session : Session) (step : Step)
    (lasts : step = .restart → session.ledger.backend.Lasts) {key : Key}
    (versioned : key.table ∈ Table.versioned) :
    session.ledger.contents.GivesWay (session.step step).ledger.contents key := by
  cases step with
  | call now call =>
    simp only [Session.step, perform]
    split
    · exact Ledger.givesWay_perform session.ledger now call versioned
    · exact .refl _ key
  | disturb faults => exact .refl _ key
  | restart =>
    refine (writtenWithin_step session .restart lasts).givesWay fun inside => ?_
    rw [List.mem_singleton.1 inside] at versioned
    exact absurd versioned (by decide)

/-- In every history, a row that tells a version gives way to newer rows only. -/
theorem givesWay_run {session : Session} {steps : List Step}
    (lasting : session.AtRestarts Backend.Lasts steps) {key : Key}
    (versioned : key.table ∈ Table.versioned) :
    session.ledger.contents.GivesWay (session.run steps).ledger.contents key := by
  induction steps generalizing session with
  | nil => exact .refl _ key
  | cons step steps ih =>
    obtain ⟨lasts, rest⟩ := lasting
    exact (givesWay_step session step lasts versioned).trans (ih rest)

end Session

end IngestLedger
