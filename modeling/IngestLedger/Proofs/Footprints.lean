import IngestLedger.Proofs.Applying
import IngestLedger.Proofs.Operations

/-!
# What calls write

A call writes under the keys of few rows, and under each of them a value that belongs there: the
record of a row that tells the key it stands under, or nothing under the key of an index. All other
keys keep their values, whatever the store holds and whatever the call answers.

Main definitions:

* `Key.Admits`: the values that belong under a key.
* `Call.footprint`, `Call.tables`: the keys that a call may write under, and their tables.
* `Store.value?`, `Store.row?`: what stands under the key of a row.
* `Store.IsWellFormed`: every value in a store belongs under its key.

Main statements:

* `Ledger.writtenWithin_perform`: a call writes within its footprint.
* `Ledger.value?_perform`: a key outside the footprint of a call keeps its value.
* `Store.WrittenWithin.isWellFormed`: what is written so keeps a store well-formed.
-/

namespace IngestLedger

/-! ### Values and keys -/

/-- A value that belongs under a key. -/
def Key.Admits (value : Bytes) : Key → Prop
  | chain => ∃ row : ChainRow, Record.encode row = .ok value
  | layout => ∃ row : LayoutRow, Record.encode row = .ok value
  | processor name => ∃ row : ProcessorRow, row.name = name ∧ Record.encode row = .ok value
  | backfill name => ∃ row : BackfillRow, row.name = name ∧ Record.encode row = .ok value
  | accountLink account authKey => ∃ row : AccountLink,
      (row.account = account ∧ row.authKey = authKey) ∧ Record.encode row = .ok value
  | membership authKey keyType publicKey => ∃ row : Membership,
      (row.authKey = authKey ∧ row.publicKeyType = keyType ∧ row.publicKey = publicKey) ∧
        Record.encode row = .ok value
  | accountIndex .. | membershipIndex .. => value = []

/-- The keys of the row of an event and of its index entry. -/
def IdentityEvent.keys (event : IdentityEvent) : List Key := [event.key, event.key.reversed]

theorem IdentityEvent.admits_key {event : IdentityEvent} {value : Bytes}
    (h : event.record = .ok value) : event.key.Admits value := by
  cases event with
  | link row => exact ⟨row, ⟨rfl, rfl⟩, h⟩
  | member row => exact ⟨row, ⟨rfl, rfl, rfl⟩, h⟩

theorem IdentityEvent.admits_reversed (event : IdentityEvent) : event.key.reversed.Admits [] := by
  cases event <;> rfl

theorem IdentityEvent.table_mem_of_mem_keys (event : IdentityEvent) {key : Key}
    (h : key ∈ event.keys) : key.table ∈ Table.identity := by
  rcases List.mem_pair.1 h with rfl | rfl
  · exact event.table_key_mem
  · exact event.table_reversed_mem

/-- The kind of progress that runs in a mode keep. -/
def RunMode.kind? : RunMode → Option ProgressKind
  | live _ => some .live
  | backfill .. => some .backfill
  | testing .. => none

/-- The table of the progress rows of a kind. -/
def ProgressKind.table : ProgressKind → Table
  | live => .processors
  | backfill => .backfills

theorem ProgressKind.table_notMem_identity (kind : ProgressKind) : kind.table ∉ Table.identity := by
  cases kind <;> decide

/-- The progress rows that the batches of a mode move. -/
def RunMode.progressKeys (processor : String) : RunMode → List Key
  | live _ => [.processor processor]
  | backfill id .. => [.backfill (backfillAlias processor id)]
  | testing .. => []

/-- The row that starting a backfill writes, which it does only to begin anew. -/
def BackfillRun.keys (name : String) (run : BackfillRun) : List Key :=
  if run.overwrite then [.backfill name] else []

theorem BackfillRun.eq_of_mem_keys {name : String} {run : BackfillRun} {key : Key}
    (h : key ∈ run.keys name) : key = .backfill name := by
  unfold keys at h
  split at h
  · exact List.mem_singleton.1 h
  · cases h

/-- The row that resolving a range writes. -/
def RunMode.startKeys (processor : String) : RunMode → List Key
  | backfill id initial ending overwrite =>
    BackfillRun.keys (backfillAlias processor id) ⟨initial, ending, overwrite⟩
  | _ => []

/-- The keys that a call may write under. -/
def Call.footprint : Call → List Key
  | verifyChain _ => [.chain]
  | advance processor .. => [.processor processor]
  | startOrResume name run => run.keys name
  | advanceBackfill name .. => [.backfill name]
  | apply event => event.keys
  | resolveRange processor mode => mode.startKeys processor
  | commitBatch processor mode _ events =>
    mode.progressKeys processor ++ events.flatMap IdentityEvent.keys

/-- The table of the progress rows that runs in a mode write. -/
def RunMode.tables (mode : RunMode) : List Table := (mode.kind?.map ProgressKind.table).toList

/-- The tables that a call may write to. -/
def Call.tables : Call → List Table
  | verifyChain _ => [.chain]
  | advance .. => [ProgressKind.live.table]
  | startOrResume .. | advanceBackfill .. => [ProgressKind.backfill.table]
  | apply _ => Table.identity
  | resolveRange _ mode => mode.tables
  | commitBatch _ mode .. => mode.tables ++ Table.identity

/-- A call writes to its tables. -/
theorem Call.table_mem_of_mem_footprint {call : Call} {key : Key} (h : key ∈ call.footprint) :
    key.table ∈ call.tables := by
  cases call with
  | verifyChain chain =>
    obtain rfl := List.mem_singleton.1 h
    exact List.mem_singleton_self _
  | advance processor version time =>
    obtain rfl := List.mem_singleton.1 h
    exact List.mem_singleton_self _
  | startOrResume name run =>
    obtain rfl := BackfillRun.eq_of_mem_keys h
    exact List.mem_singleton_self _
  | advanceBackfill name version time =>
    obtain rfl := List.mem_singleton.1 h
    exact List.mem_singleton_self _
  | apply event => exact event.table_mem_of_mem_keys h
  | resolveRange processor mode =>
    cases mode with
    | backfill id initial ending overwrite =>
      obtain rfl := BackfillRun.eq_of_mem_keys h
      exact List.mem_singleton_self _
    | live initial => cases h
    | testing start ending => cases h
  | commitBatch processor mode batch events =>
    rcases List.mem_append.1 h with here | here
    · refine List.mem_append_left _ ?_
      cases mode with
      | live initial =>
        obtain rfl := List.mem_singleton.1 here
        exact List.mem_singleton_self _
      | backfill id initial ending overwrite =>
        obtain rfl := List.mem_singleton.1 here
        exact List.mem_singleton_self _
      | testing start ending => cases here
    · obtain ⟨event, -, written⟩ := List.mem_flatMap.1 here
      exact List.mem_append_right _ (event.table_mem_of_mem_keys written)

/-- Changes that write values that belong under some given keys. -/
def Changes.Within (keys : List Key) (changes : Changes) : Prop :=
  ∀ e ∈ changes.entries, ∃ key ∈ keys, key.bytes = .ok e.1 ∧ key.Admits e.2

namespace Changes

variable {keys others : List Key} {c d : Changes}

theorem within_of_entries_nil (h : c.entries = []) : c.Within keys := by
  intro e member
  rw [h] at member
  cases member

theorem within_row {key : Key} {bytes value : Bytes} {counted : List Counter}
    (hkey : Ledger.keyBytes key = .ok bytes) (admits : key.Admits value) :
    Changes.Within [key] ⟨[(bytes, value)], counted⟩ := by
  intro e member
  obtain rfl := List.mem_singleton.1 member
  exact ⟨key, List.mem_singleton_self key, Ledger.keyBytes_eq_ok_iff.1 hkey, admits⟩

theorem Within.mono (h : c.Within keys) (subset : keys ⊆ others) : c.Within others := by
  intro e member
  obtain ⟨key, inside, here⟩ := h e member
  exact ⟨key, subset inside, here⟩

theorem Within.append (hc : c.Within keys) (hd : d.Within others) :
    (c ++ d).Within (keys ++ others) := by
  intro e member
  rcases List.mem_append.1 member with member | member
  · exact hc.mono (List.subset_append_left keys others) e member
  · exact hd.mono (List.subset_append_right keys others) e member

theorem Within.isIdentityKey (h : c.Within keys)
    (identity : ∀ key ∈ keys, key.table ∈ Table.identity) :
    ∀ e ∈ c.entries, IsIdentityKey e.1 := by
  intro e member
  obtain ⟨key, inside, hkey, -⟩ := h e member
  exact (Key.isIdentityKey_iff hkey).2 (identity key inside)

end Changes

/-! ### Planned changes -/

namespace Ledger

variable {ledger : Ledger} {now : Timestamp} {changes : Changes}

theorem within_planLayout {answer : Unit} (planned : ledger.planLayout = .ok (answer, changes)) :
    changes.Within [.layout] := by
  obtain ⟨stored, -, ⟨-, rfl⟩ | ⟨-, value, encoded, rfl⟩⟩ := planLayout_ok planned
  · exact Changes.within_of_entries_nil rfl
  · have layout : keyBytes .layout = .ok Key.layoutBytes := rfl
    exact Changes.within_row layout ⟨_, encoded⟩

theorem within_planChain {chain : ChainId} {answer : Unit}
    (planned : planChain chain = .ok (answer, changes)) : changes.Within [.chain] := by
  obtain ⟨value, encoded, planned⟩ := bind_eq_ok_iff.1 planned
  obtain ⟨-, rfl⟩ := Prod.mk.inj (Except.ok.inj planned)
  have chain : keyBytes .chain = .ok Key.chainBytes := rfl
  exact Changes.within_row chain ⟨_, encoded⟩

theorem within_planAdvance {processor : String} {version : Version} {time : Option Timestamp}
    {outcome : AdvanceOutcome}
    (planned : ledger.planAdvance now processor version time = .ok (outcome, changes)) :
    changes.Within [.processor processor] := by
  obtain ⟨bytes, stored, hkey, -, ⟨-, -, rfl⟩ | ⟨-, -, value, encoded, rfl⟩⟩ :=
    planAdvance_ok planned
  · exact Changes.within_of_entries_nil rfl
  · exact Changes.within_row hkey ⟨_, rfl, encoded⟩

theorem within_planBackfillAdvance {name : String} {version : Version} {time : Option Timestamp}
    {outcome : AdvanceOutcome}
    (planned : ledger.planBackfillAdvance now name version time = .ok (outcome, changes)) :
    changes.Within [.backfill name] := by
  obtain ⟨bytes, stored, run, hkey, -, -, -, ⟨-, -, rfl⟩ | ⟨-, -, value, encoded, rfl⟩⟩ :=
    planBackfillAdvance_ok planned
  · exact Changes.within_of_entries_nil rfl
  · exact Changes.within_row hkey ⟨_, rfl, encoded⟩

/-- Only a backfill that begins anew is written when it is started. -/
theorem within_planStart {name : String} {run : BackfillRun} {plan : BackfillPlan}
    (planned : ledger.planStart now name run = .ok (plan, changes)) :
    changes.Within (run.keys name) := by
  obtain ⟨bytes, stored, hkey, -, ⟨overwrite, -, value, encoded, rfl⟩ | ⟨-, rfl⟩⟩ :=
    planStart_ok planned
  · rw [BackfillRun.keys, if_pos overwrite]
    exact Changes.within_row hkey ⟨_, rfl, encoded⟩
  · exact Changes.within_of_entries_nil rfl

theorem within_planCheckpoint {processor : String} {batch : BatchInfo} {mode : RunMode}
    {outcome : CheckpointOutcome}
    (planned : ledger.planCheckpoint now processor batch mode = .ok (outcome, changes)) :
    changes.Within (mode.progressKeys processor) := by
  rcases planCheckpoint_cases planned with ⟨initial, moved, rfl, advancing, rfl⟩ |
    ⟨id, initial, ending, overwrite, moved, rfl, advancing, rfl⟩ | ⟨start, ending, rfl, rfl, rfl⟩
  · exact within_planAdvance advancing
  · exact within_planBackfillAdvance advancing
  · exact Changes.within_of_entries_nil rfl

theorem within_planEvent {event : IdentityEvent} {outcome : ApplyOutcome}
    (planned : ledger.planEvent event = .ok (outcome, changes)) : changes.Within event.keys := by
  obtain ⟨row, index, stored, hrow, hindex, -, ⟨-, -, rfl⟩ | ⟨-, -, value, hvalue, rfl⟩⟩ :=
    planEvent_cases planned
  · exact Changes.within_of_entries_nil rfl
  · have written : Changes.Within [event.key] ⟨[(row, value)], []⟩ :=
      Changes.within_row (keyBytes_eq_ok_iff.2 hrow) (event.admits_key hvalue)
    have indexed : Changes.Within [event.key.reversed] ⟨[(index, [])], []⟩ :=
      Changes.within_row (keyBytes_eq_ok_iff.2 hindex) event.admits_reversed
    exact written.append indexed

theorem within_planEvents {events : List IdentityEvent} {tally : ApplyTally}
    (planned : ledger.planEvents events = .ok (tally, changes)) :
    changes.Within (events.flatMap IdentityEvent.keys) :=
  planEvents_keeps (fun c keys => c.Within keys) IdentityEvent.keys
    (Changes.within_of_entries_nil rfl) Changes.Within.append within_planEvent planned

theorem isIdentityKey_of_planEvent {event : IdentityEvent} {outcome : ApplyOutcome}
    (planned : ledger.planEvent event = .ok (outcome, changes)) :
    ∀ e ∈ changes.entries, IsIdentityKey e.1 :=
  (within_planEvent planned).isIdentityKey fun _ => event.table_mem_of_mem_keys

/-- A batch writes its events to the identity tables alone. -/
theorem isIdentityKey_of_planEvents {events : List IdentityEvent} {tally : ApplyTally}
    (planned : ledger.planEvents events = .ok (tally, changes)) :
    ∀ e ∈ changes.entries, IsIdentityKey e.1 := by
  refine (within_planEvents planned).isIdentityKey fun key inside => ?_
  obtain ⟨event, -, here⟩ := List.mem_flatMap.1 inside
  exact event.table_mem_of_mem_keys here

theorem within_planBatch {processor : String} {mode : RunMode} {batch : BatchInfo}
    {events : List IdentityEvent} {outcome : BatchOutcome}
    (planned : ledger.planBatch now processor mode batch events = .ok (outcome, changes)) :
    changes.Within (mode.progressKeys processor ++ events.flatMap IdentityEvent.keys) := by
  obtain ⟨progress, rest, hprogress, hrest, rfl⟩ := planBatch_eq_ok_iff.1 planned
  refine (within_planCheckpoint hprogress).append ((within_planEvents hrest).mono ?_)
  -- coalescing keeps events of the batch
  intro key inside
  obtain ⟨event, member, here⟩ := List.mem_flatMap.1 inside
  exact List.mem_flatMap.2 ⟨event, (mem_coalesce_iff.1 member).mem, here⟩

end Ledger

/-! ### Stores that are written to -/

namespace Store

/-- What stands under the key of a row. -/
def value? (store : Store) (key : Key) : Option Bytes :=
  match key.bytes with
  | .ok bytes => store.get? bytes
  | .error _ => none

/-- The row that stands under its key, if it can be read; the empty key is for errors only. -/
def row? (α : Type) [Row α] (store : Store) (key : Key) : Option α :=
  (store.value? key).bind fun value => (Record.decode [] value).toOption

/-- A store to which changes under some given keys were written. -/
def WrittenWithin (keys : List Key) (before after : Store) : Prop :=
  ∃ changes : Changes, changes.Within keys ∧ after = before.insertAll changes.entries

/-- Every value that stands under the key of a row belongs there. -/
def IsWellFormed (store : Store) : Prop :=
  ∀ key value, store.value? key = some value → key.Admits value

theorem value?_eq {store : Store} {key : Key} {bytes : Bytes} (hkey : key.bytes = .ok bytes) :
    store.value? key = store.get? bytes := by
  simp only [value?, hkey]

theorem get?_congr {store other : Store} {key : Key} {bytes : Bytes} (hkey : key.bytes = .ok bytes)
    (value : other.value? key = store.value? key) : other.get? bytes = store.get? bytes := by
  rwa [value?_eq hkey, value?_eq hkey] at value

theorem value?_insertAll_single (store : Store) {key : Key} {bytes : Bytes}
    (hkey : key.bytes = .ok bytes) (value : Bytes) :
    (store.insertAll [(bytes, value)]).value? key = some value :=
  (value?_eq hkey).trans (store.get?_insertAll_single bytes value)

theorem value?_insertAll_single_of_ne (store : Store) {key other : Key} {bytes : Bytes}
    (hkey : key.bytes = .ok bytes) (value : Bytes) (ne : other ≠ key) :
    (store.insertAll [(bytes, value)]).value? other = store.value? other := by
  cases hother : other.bytes with
  | error fault => simp only [value?, hother]
  | ok place =>
    rw [value?_eq hother, value?_eq hother]
    refine get?_insertAll_of_forall_ne (fun e member same => ne ?_) store
    rw [List.mem_singleton.1 member] at same
    exact Key.bytes_injective hother (same ▸ hkey)

theorem value?_empty (key : Key) : empty.value? key = none := by
  unfold value?
  split
  · exact get?_empty _
  · rfl

theorem isWellFormed_empty : empty.IsWellFormed := by
  intro key value stored
  rw [value?_empty] at stored
  cases stored

theorem row?_congr {α : Type} [Row α] {store other : Store} {key : Key}
    (same : other.value? key = store.value? key) : other.row? α key = store.row? α key := by
  unfold row?
  rw [same]

/-- The row whose record stands under a key. -/
theorem row?_of_encode {α : Type} [Row α] {store : Store} {key : Key} {row : α} {value : Bytes}
    (encoded : Record.encode row = .ok value) (stored : store.value? key = some value) :
    store.row? α key = some row := by
  rw [row?, stored, Option.bind_some, Record.decode_encode encoded]
  rfl

/-- A row that was written on its own. -/
theorem row?_insertAll_single {α : Type} [Row α] (store : Store) {key : Key} {bytes : Bytes}
    (hkey : key.bytes = .ok bytes) {row : α} {value : Bytes}
    (encoded : Record.encode row = .ok value) :
    (store.insertAll [(bytes, value)]).row? α key = some row :=
  row?_of_encode encoded (store.value?_insertAll_single hkey value)

variable {keys : List Key} {before after : Store}

theorem WrittenWithin.refl (keys : List Key) (store : Store) : WrittenWithin keys store store :=
  ⟨.nothing, Changes.within_of_entries_nil rfl, rfl⟩

/-- The other keys keep their values. -/
theorem WrittenWithin.value?_eq (h : WrittenWithin keys before after) {key : Key}
    (outside : key ∉ keys) : after.value? key = before.value? key := by
  obtain ⟨changes, within, rfl⟩ := h
  unfold value?
  split
  · rename_i bytes hkey
    refine get?_insertAll_of_forall_ne (fun e member same => outside ?_) before
    obtain ⟨written, inside, hwritten, -⟩ := within e member
    rw [same] at hwritten
    exact Key.bytes_injective hkey hwritten ▸ inside
  · rfl

theorem WrittenWithin.isWellFormed (h : WrittenWithin keys before after)
    (wellFormed : before.IsWellFormed) : after.IsWellFormed := by
  obtain ⟨⟨entries, counted⟩, within, rfl⟩ := h
  -- entry by entry: the value of a key is that of the last entry for it, or the one before
  induction entries generalizing before with
  | nil => exact wellFormed
  | cons entry entries ih =>
    have inserted : (before.insert entry).IsWellFormed := by
      intro key value stored
      cases hkey : key.bytes with
      | error fault => simp [value?, hkey] at stored
      | ok bytes =>
        rw [Store.value?_eq hkey, get?_insert] at stored
        split at stored
        · rename_i same
          obtain ⟨written, -, hwritten, admits⟩ := within entry List.mem_cons_self
          rw [← same] at hwritten
          rw [Key.bytes_injective hkey hwritten, ← Option.some.inj stored]
          exact admits
        · rw [← Store.value?_eq hkey] at stored
          exact wellFormed key value stored
    exact ih inserted fun e member => within e (List.mem_cons_of_mem _ member)

end Store

/-! ### Calls -/

namespace Ledger

variable {ledger : Ledger} {now : Timestamp}

theorem writtenWithin_transact {α : Type} {keys : List Key}
    {planned : Except LedgerError (α × Changes)}
    (within : ∀ answer changes, planned = .ok (answer, changes) → changes.Within keys) :
    ledger.contents.WrittenWithin keys (ledger.transact planned).2.contents := by
  cases result : ledger.transact planned with
  | mk answer after =>
    cases answer with
    | error e =>
      rw [contents_of_transact_error result]
      exact .refl keys _
    | ok answer =>
      obtain ⟨changes, hplanned, contents, -⟩ := transact_ok result
      exact ⟨changes, within answer changes hplanned, contents⟩

/-- Opening a ledger writes its layout at most. -/
theorem writtenWithin_openOn (backend : Backend) (counters : Counters) :
    backend.contents.WrittenWithin [.layout] (openOn backend counters).2.contents := by
  show (fresh backend counters).contents.WrittenWithin [.layout] _
  exact writtenWithin_transact fun _ _ => within_planLayout

theorem writtenWithin_startOrResume (name : String) (run : BackfillRun) :
    ledger.contents.WrittenWithin (run.keys name)
      (ledger.startOrResume now name run).2.contents := by
  unfold contents
  rw [backend_startOrResume]
  exact writtenWithin_transact fun _ _ => within_planStart

/-- A call writes within its footprint, whether it is answered or not. -/
theorem writtenWithin_perform (ledger : Ledger) (now : Timestamp) (call : Call) :
    ledger.contents.WrittenWithin call.footprint (ledger.perform now call).2.contents := by
  cases call with
  | verifyChain chain =>
    show ledger.contents.WrittenWithin _ (ledger.verifyChain chain).2.backend.contents
    rw [backend_verifyChain]
    split
    · exact writtenWithin_transact fun _ _ => within_planChain
    · exact .refl _ _
  | advance processor version time =>
    refine writtenWithin_transact fun outcome changes planned => ?_
    obtain ⟨-, -, planned⟩ := bind_eq_ok_iff.1 planned
    exact within_planAdvance planned
  | startOrResume name run => exact writtenWithin_startOrResume name run
  | advanceBackfill name version time =>
    refine writtenWithin_transact fun outcome changes planned => ?_
    obtain ⟨-, -, planned⟩ := bind_eq_ok_iff.1 planned
    exact within_planBackfillAdvance planned
  | apply event =>
    refine writtenWithin_transact fun outcome changes planned => ?_
    obtain ⟨-, -, planned⟩ := bind_eq_ok_iff.1 planned
    exact within_planEvent planned
  | resolveRange processor mode =>
    show ledger.contents.WrittenWithin _ (ledger.resolveRange now processor mode).2.contents
    rw [resolveRange_snd]
    cases mode with
    | live initial => exact .refl _ _
    | backfill id initial ending overwrite => exact writtenWithin_startOrResume _ _
    | testing start ending => exact .refl _ _
  | commitBatch processor mode batch events =>
    refine writtenWithin_transact fun outcome changes planned => ?_
    obtain ⟨-, -, planned⟩ := bind_eq_ok_iff.1 planned
    exact within_planBatch planned

/-- A key outside the footprint of a call keeps its value. -/
theorem value?_perform (ledger : Ledger) (now : Timestamp) {call : Call} {key : Key}
    (outside : key ∉ call.footprint) :
    (ledger.perform now call).2.contents.value? key = ledger.contents.value? key :=
  (writtenWithin_perform ledger now call).value?_eq outside

/-- The events of a batch leave the rows of other tables alone. -/
theorem value?_insertAll_of_planEvents {events : List IdentityEvent} {tally : ApplyTally}
    {changes : Changes} (planned : ledger.planEvents events = .ok (tally, changes)) (key : Key)
    (other : key.table ∉ Table.identity) (store : Store) :
    (store.insertAll changes.entries).value? key = store.value? key := by
  have written : store.WrittenWithin (events.flatMap IdentityEvent.keys)
      (store.insertAll changes.entries) := ⟨changes, within_planEvents planned, rfl⟩
  refine written.value?_eq fun inside => ?_
  obtain ⟨event, -, here⟩ := List.mem_flatMap.1 inside
  exact other (event.table_mem_of_mem_keys here)

/-! ### Reading rows -/

/-- Reading a row does not depend on its key, but for the wording of errors. -/
theorem toOption_decode {α : Type} [Row α] (key value : Bytes) :
    (Record.decode key value : Except LedgerError α).toOption =
      (Record.decode [] value : Except LedgerError α).toOption := by
  unfold Record.decode
  by_cases short : value.length < 4
  · rw [if_pos short, if_pos short]
    simp only [Except.toOption]
  · rw [if_neg short, if_neg short]
    by_cases right : Crc32.verify (Record.split value).1 (Record.split value).2 = true
    · simp only [if_pos right]
    · simp only [if_neg right, Except.toOption]

/-- What is read under a key is nothing, or the row that stands there. -/
theorem readRow_cases {α : Type} [Row α] {key : Key} {bytes : Bytes} {stored : Option α}
    (hkey : key.bytes = .ok bytes) (read : ledger.readRow α bytes = .ok stored) :
    (ledger.contents.value? key = none ∧ stored = none) ∨
      ∃ value row, ledger.contents.value? key = some value ∧ stored = some row ∧
        (Record.decode [] value : Except LedgerError α).toOption = some row := by
  unfold contents
  rw [Store.value?_eq hkey]
  unfold readRow Backend.get at read
  split at read
  · cases read
  · rename_i found
    split at found
    · cases found
    · exact .inl ⟨Except.ok.inj found, (Except.ok.inj read).symm⟩
  · rename_i value found
    split at found
    · cases found
    · split at read
      · cases read
      · rename_i row decoded
        refine .inr ⟨value, row, Except.ok.inj found, (Except.ok.inj read).symm, ?_⟩
        rw [← toOption_decode bytes value, decoded]
        rfl

/-- What is read under the key of a row. -/
theorem row?_of_readRow {α : Type} [Row α] {key : Key} {bytes : Bytes} {stored : Option α}
    (hkey : key.bytes = .ok bytes) (read : ledger.readRow α bytes = .ok stored) :
    ledger.contents.row? α key = stored := by
  rcases readRow_cases hkey read with ⟨none, rfl⟩ | ⟨value, row, found, rfl, decoded⟩
  · rw [Store.row?, none]
    rfl
  · rw [Store.row?, found, Option.bind_some, decoded]

theorem row?_of_fetch {α : Type} [Row α] {key : Key} {stored : Option α}
    (fetched : ledger.fetch α key = .ok stored) : ledger.contents.row? α key = stored := by
  obtain ⟨bytes, hkey, read⟩ := bind_eq_ok_iff.1 fetched
  exact row?_of_readRow (keyBytes_eq_ok_iff.1 hkey) read

/-- A row is read when what stands under its key is one. -/
theorem exists_readRow {α : Type} [Row α] (reads : ledger.backend.faults.get = none) {key : Key}
    {bytes : Bytes} (hkey : key.bytes = .ok bytes)
    (rows : ∀ value, ledger.contents.value? key = some value →
      ∃ row : α, Record.encode row = .ok value) :
    ∃ stored, ledger.readRow α bytes = .ok stored := by
  rw [Store.value?_eq hkey] at rows
  unfold contents at rows
  cases found : ledger.backend.contents.get? bytes with
  | none => exact ⟨none, by simp only [readRow, Backend.get, reads, found]⟩
  | some value =>
    obtain ⟨row, encoded⟩ := rows value found
    refine ⟨some row, ?_⟩
    simp only [readRow, Backend.get, reads, found, Record.decode_encode encoded bytes]

end Ledger

end IngestLedger
