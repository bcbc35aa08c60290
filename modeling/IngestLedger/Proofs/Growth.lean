import IngestLedger.Proofs.Moves
import IngestLedger.Proofs.PlannedEvents
import Mathlib.Data.Set.Card

/-!
# By how much counters have to grow

A counter grows with what a call was answered and with what the call has changed in the store. This
is told here a second time, without the plans: from the call, its result and the store before and
after it. For the calls that need a verified chain it is what their plan counts, move and events.

Main definitions:

* `Store.changedRows`: the identity rows that tell another version afterwards.
* `Store.Completes`: a backfill has become complete.
* `Call.growth`: by how much a counter has to grow with a call.

Main statements:

* `Ledger.ncard_changedRows`: the rows that a batch has changed are those it counts as written.
* `Ledger.count_of_commits`: what is counted for a call that needs a verified chain.
* `Ledger.growth_of_quiet`: what is counted for a call that changes nothing of this.
-/

namespace IngestLedger

/-! ### What has changed in a store -/

/-- The identity table that has its rows under a key. -/
def Key.identityTable? : Key → Option RowTable
  | accountLink .. => some .accountLinks
  | membership .. => some .memberships
  | _ => none

/-- The table of the progress rows of a kind, as it is counted. -/
def ProgressKind.rowTable : ProgressKind → RowTable
  | live => .processors
  | backfill => .backfills

theorem IdentityEvent.identityTable?_key (event : IdentityEvent) :
    event.key.identityTable? = some event.rowTable := by
  cases event <;> rfl

theorem Key.table_mem_of_identityTable? {key : Key} {table : RowTable}
    (h : key.identityTable? = some table) : key.table ∈ Table.identity := by
  cases key with
  | accountLink | membership => simp [Key.table, Table.identity]
  | _ => cases h

namespace Store

/-- The rows of an identity table that tell another version than before, or are new. -/
def changedRows (before after : Store) (table : RowTable) : Set Key :=
  {key | key.identityTable? = some table ∧ after.version? key ≠ before.version? key}

/-- The row of a backfill is there and complete. -/
def HasComplete (store : Store) (name : String) : Prop :=
  (store.row? BackfillRow (.backfill name)).any BackfillRow.isComplete = true

/-- The row of some backfill has become complete, and was in progress or absent before. -/
def Completes (before after : Store) : Prop :=
  ∃ name, after.HasComplete name ∧ ¬ before.HasComplete name

variable {before after : Store}

/-- Where no identity row was written, none has changed. -/
theorem changedRows_eq_empty
    (kept : ∀ key : Key, key.table ∈ Table.identity → after.value? key = before.value? key)
    (table : RowTable) : before.changedRows after table = ∅ := by
  refine Set.eq_empty_of_forall_notMem fun key ⟨identity, changed⟩ => changed ?_
  exact version?_congr (kept key (Key.table_mem_of_identityTable? identity))

theorem hasComplete_congr {name : String}
    (value : after.value? (.backfill name) = before.value? (.backfill name)) :
    after.HasComplete name ↔ before.HasComplete name := by
  unfold HasComplete
  rw [row?_congr value]

theorem completes_congr {store other : Store}
    (values : ∀ name, other.value? (.backfill name) = after.value? (.backfill name)) :
    store.Completes other ↔ store.Completes after :=
  exists_congr fun name => and_congr_left' (hasComplete_congr (values name))

theorem not_completes_self (store : Store) : ¬ store.Completes store :=
  fun ⟨_, complete, other⟩ => other complete

/-- Writing the row of one backfill completes that backfill at most. -/
theorem completes_insertAll_single_iff (store : Store) {name : String} {bytes : Bytes}
    (hkey : (Key.backfill name).bytes = .ok bytes) {row : BackfillRow} {value : Bytes}
    (encoded : Record.encode row = .ok value) :
    store.Completes (store.insertAll [(bytes, value)]) ↔
      row.isComplete = true ∧ ¬ store.HasComplete name := by
  have written : (store.insertAll [(bytes, value)]).HasComplete name ↔ row.isComplete = true := by
    rw [HasComplete, store.row?_insertAll_single hkey encoded, Option.any_some]
  rw [← written]
  refine ⟨fun ⟨other, complete, before⟩ => ?_, fun completes => ⟨name, completes⟩⟩
  by_cases same : other = name
  · exact same ▸ ⟨complete, before⟩
  · have kept := store.value?_insertAll_single_of_ne hkey value (mt Key.backfill.inj same)
    exact absurd ((hasComplete_congr kept).1 complete) before

end Store

/-! ### What has to be counted for a call -/

namespace Call

/-- What the result of a call reports about a progress row. -/
def reported? (call : Call) : Except LedgerError Answer → Option (ProgressKind × CheckpointOutcome)
  | .ok answer => call.move?.bind fun move => answer.checkpoint?.map (move.kind, ·)
  | .error _ => none

/-- The events of an answered call that were stale: of those that are left for one row each, the
ones whose row was as new before. -/
def staleEvents (call : Call) (before : Store) : Except LedgerError Answer → List IdentityEvent
  | .ok _ => (coalesce call.events).filter fun event => before.HasReached event.key event.version
  | .error _ => []

/-- The tables of the stale outcomes of a call, each as often as it had one: of the progress row
that it moved, and of its events. -/
def staleTables (call : Call) (before : Store) (result : Except LedgerError Answer) :
    List RowTable :=
  (match call.reported? result with
    | some (kind, .stale) => [kind.rowTable]
    | _ => []) ++
    (call.staleEvents before result).map IdentityEvent.rowTable

/-- What the result of verifying a chain tells: a chain was refused, or it is the one in the store,
or there was none before. -/
def chainCheck? (before : Store) : Call → Except LedgerError Answer → Option ChainCheck
  | .verifyChain _, .ok _ =>
    some (if (before.value? .chain).isSome then .verified else .initialized)
  | .verifyChain _, .error (.chainMismatch _ _) => some .mismatch
  | _, _ => none

open scoped Classical in
/-- By how much a counter has to grow with a call, told by its result and by the store before and
after it. -/
noncomputable def growth (call : Call) (result : Except LedgerError Answer) (before after : Store) :
    Counter → Nat
  | .advanced kind => if call.reported? result = some (kind, .advanced) then 1 else 0
  | .backfillCompleted => if before.Completes after then 1 else 0
  | .chainChecked outcome => if call.chainCheck? before result = some outcome then 1 else 0
  | .identityWritten table => (before.changedRows after table).ncard
  | .staleIgnored table => (call.staleTables before result).count table

theorem reported?_of_none {call : Call} (made : call.move? = none) (answer : Answer) :
    call.reported? (.ok answer) = none := by
  simp only [reported?, made, Option.bind_none]

theorem reported?_of_some {call : Call} {move : Move} (made : call.move? = some move)
    {answer : Answer} {outcome : CheckpointOutcome} (answered : answer.checkpoint? = some outcome) :
    call.reported? (.ok answer) = some (move.kind, outcome) := by
  simp only [reported?, made, answered, Option.bind_some, Option.map_some]

theorem chainCheck?_of_commits {call : Call} (commits : call.commits = true) (before : Store)
    (result : Except LedgerError Answer) : call.chainCheck? before result = none := by
  cases call with
  | advance | advanceBackfill | apply | commitBatch => rfl
  | verifyChain | startOrResume | resolveRange => cases commits

end Call

namespace Ledger

variable {ledger after : Ledger} {now : Timestamp} {call : Call} {answer : Answer}
  {changes : Changes}

/-! ### Counting moves -/

open scoped Classical in
/-- A move is counted as stale, or as progress and as completing the backfill when it does. -/
theorem counted_of_planMove {move : Move} {outcome : AdvanceOutcome}
    (planned : ledger.planMove now move = .ok (outcome, changes)) :
    outcome = .stale ∧ changes = .count (.staleIgnored move.kind.rowTable) ∨
      outcome = .advanced ∧ changes.counted = .advanced move.kind ::
        if ledger.contents.Completes (ledger.contents.insertAll changes.entries) then
          [.backfillCompleted] else [] := by
  obtain ⟨kind, name, version, time⟩ := move
  cases kind with
  | live =>
    obtain ⟨bytes, stored, hkey, -, ⟨-, rfl, rfl⟩ | ⟨-, rfl, value, -, rfl⟩⟩ :=
      planAdvance_ok planned
    · exact .inl ⟨rfl, rfl⟩
    · rw [keyBytes_eq_ok_iff] at hkey
      have incomplete : ¬ ledger.contents.Completes
          (ledger.contents.insertAll [(bytes, value)]) := by
        refine fun completes => Store.not_completes_self _ ((Store.completes_congr ?_).1 completes)
        exact fun other => Store.value?_insertAll_single_of_ne _ hkey value (by simp)
      exact .inr ⟨rfl, by rw [if_neg incomplete]⟩
  | backfill =>
    obtain ⟨bytes, stored, run, hkey, read, -, -, ⟨-, rfl, rfl⟩ | ⟨-, rfl, value, encoded, rfl⟩⟩ :=
      planBackfillAdvance_ok planned
    · exact .inl ⟨rfl, rfl⟩
    · rw [keyBytes_eq_ok_iff] at hkey
      have completes : ledger.contents.Completes (ledger.contents.insertAll [(bytes, value)]) ↔
          ((movedBackfillRow now name run version time).isComplete &&
            !stored.any BackfillRow.isComplete) = true := by
        rw [Store.completes_insertAll_single_iff _ hkey encoded, Store.HasComplete,
          row?_of_readRow hkey read]
        simp
      exact .inr ⟨rfl, by simp only [completes]⟩

open scoped Classical in
/-- What is counted for the move of a call, by what its answer reports. -/
theorem counted_of_plansMove
    (moved : ledger.PlansMove now call.move? answer.checkpoint? changes) :
    call.reported? (.ok answer) = none ∧ changes = .nothing ∨ ∃ kind,
      call.reported? (.ok answer) = some (kind, .stale) ∧
          changes = .count (.staleIgnored kind.rowTable) ∨
        call.reported? (.ok answer) = some (kind, .advanced) ∧ changes.counted = .advanced kind ::
          if ledger.contents.Completes (ledger.contents.insertAll changes.entries) then
            [.backfillCompleted] else [] := by
  cases made : call.move? with
  | none =>
    rw [made] at moved
    exact .inl ⟨Call.reported?_of_none made answer, moved.1⟩
  | some move =>
    rw [made] at moved
    obtain ⟨outcome, planned, answered⟩ := moved
    have reported := Call.reported?_of_some made answered
    rcases counted_of_planMove planned with ⟨rfl, counted⟩ | ⟨rfl, counted⟩
    · exact .inr ⟨move.kind, .inl ⟨reported, counted⟩⟩
    · exact .inr ⟨move.kind, .inr ⟨reported, counted⟩⟩

/-! ### Counting events -/

section Events

variable {events : List IdentityEvent} {tally : ApplyTally} {rest : Changes}

theorem counter_eq_identityWritten_iff {store : Store} {event : IdentityEvent} {table : RowTable} :
    event.counter store = .identityWritten table ↔
      ¬ store.HasReached event.key event.version ∧ event.rowTable = table := by
  unfold IdentityEvent.counter
  split <;> simp [*]

theorem counter_eq_staleIgnored_iff {store : Store} {event : IdentityEvent} {table : RowTable} :
    event.counter store = .staleIgnored table ↔
      store.HasReached event.key event.version ∧ event.rowTable = table := by
  unfold IdentityEvent.counter
  split <;> simp [*]

theorem count_of_planEvents (planned : ledger.planEvents events = .ok (tally, rest))
    (counter : Counter) : rest.counted.count counter =
      events.countP fun event => event.counter ledger.contents = counter := by
  rw [counted_of_planEvents planned, List.count_eq_countP, List.countP_map]
  refine List.countP_congr fun event _ => ?_
  simp

/-- Events are counted as written or as stale. -/
theorem countP_counter_eq_zero {store : Store} {counter : Counter}
    (other : ∀ table, counter ≠ .identityWritten table ∧ counter ≠ .staleIgnored table) :
    (events.countP fun event => event.counter store = counter) = 0 := by
  refine List.countP_eq_zero.2 fun event _ => ?_
  rw [decide_eq_true_eq, IdentityEvent.counter]
  split
  · exact (other _).2.symm
  · exact (other _).1.symm

/-- Every event is for a row of one of the two identity tables. -/
theorem countP_counter_add (store : Store) (events : List IdentityEvent) :
    (events.countP fun event => event.counter store = .identityWritten .accountLinks) +
        (events.countP fun event => event.counter store = .identityWritten .memberships) =
          events.countP (fun event => ¬ store.HasReached event.key event.version) ∧
      (events.countP fun event => event.counter store = .staleIgnored .accountLinks) +
        (events.countP fun event => event.counter store = .staleIgnored .memberships) =
          events.countP fun event => store.HasReached event.key event.version := by
  induction events with
  | nil => exact ⟨rfl, rfl⟩
  | cons event events ih =>
    simp only [List.countP_cons, counter_eq_identityWritten_iff, counter_eq_staleIgnored_iff,
      decide_eq_true_eq, ← ih.1, ← ih.2]
    by_cases reached : store.HasReached event.key event.version <;> cases event <;>
      simp [reached, IdentityEvent.rowTable] <;> omega

/-- The rows of a table that the events of a batch have changed are those that are counted as
written. -/
theorem ncard_changedRows (distinct : (events.map IdentityEvent.key).Nodup)
    (planned : ledger.planEvents events = .ok (tally, rest)) {store : Store}
    (same : ∀ key : Key, key.table ∈ Table.identity →
      store.value? key = ledger.contents.value? key) (table : RowTable) :
    (ledger.contents.changedRows (store.insertAll rest.entries) table).ncard =
      events.countP fun event => event.counter ledger.contents = .identityWritten table := by
  have rows : ledger.contents.changedRows (store.insertAll rest.entries) table =
      (((events.filter fun event => event.counter ledger.contents = .identityWritten table).map
        IdentityEvent.key).toFinset : Set Key) := by
    ext key
    simp only [List.coe_toFinset, Set.mem_ofPred_eq, List.mem_map, List.mem_filter,
      decide_eq_true_eq, counter_eq_identityWritten_iff]
    constructor
    · rintro ⟨identity, changed⟩
      by_contra none
      refine changed ?_
      rw [version?_of_reached planned fun event member here => ?_]
      · exact Store.version?_congr (same key (Key.table_mem_of_identityTable? identity))
      · by_contra fresh
        rw [← here, event.identityTable?_key] at identity
        exact none ⟨event, ⟨member, fresh, Option.some.inj identity⟩, here⟩
    · rintro ⟨event, ⟨member, fresh, rfl⟩, rfl⟩
      refine ⟨event.identityTable?_key, ?_⟩
      rw [version?_of_fresh distinct planned member fresh]
      exact fun unchanged => fresh ⟨event.version, unchanged.symm, UInt64.le_refl _⟩
  have nodup : ((events.filter fun event =>
      event.counter ledger.contents = .identityWritten table).map IdentityEvent.key).Nodup :=
    distinct.sublist (List.filter_sublist.map _)
  rw [rows, Set.ncard_coe_finset, List.toFinset_card_of_nodup nodup, List.length_map,
    List.countP_eq_length_filter]

end Events

/-! ### Calls that need a verified chain -/

section Commits

variable {progress rest : Changes} {tally : ApplyTally}
  (moved : ledger.PlansMove now call.move? answer.checkpoint? progress)
  (hrest : ledger.planEvents (coalesce call.events) = .ok (tally, rest))

include moved in
/-- A move leaves the identity rows alone. -/
theorem value?_of_plansMove {key : Key} (identity : key.table ∈ Table.identity) :
    (ledger.contents.insertAll progress.entries).value? key = ledger.contents.value? key := by
  cases made : call.move? with
  | none =>
    rw [made] at moved
    rw [moved.1]
    rfl
  | some move =>
    rw [made] at moved
    obtain ⟨outcome, planned, -⟩ := moved
    have written : ledger.contents.WrittenWithin [move.key]
        (ledger.contents.insertAll progress.entries) := ⟨progress, within_planMove planned, rfl⟩
    refine written.value?_eq fun inside => ?_
    rw [List.mem_singleton.1 inside, Move.key, move.kind.table_key] at identity
    exact move.kind.table_notMem_identity identity

include moved in
/-- A move is counted as progress, as completing a backfill or as stale, and as nothing else. -/
theorem count_eq_zero_of_plansMove {counter : Counter}
    (other : ∀ kind, counter ≠ .advanced kind ∧ counter ≠ .staleIgnored kind.rowTable)
    (incomplete : counter ≠ .backfillCompleted) : progress.counted.count counter = 0 := by
  rw [List.count_eq_zero]
  rcases counted_of_plansMove moved with ⟨-, rfl⟩ | ⟨kind, ⟨-, rfl⟩ | ⟨-, counted⟩⟩
  · exact List.not_mem_nil
  · exact fun here => (other kind).2 (List.mem_singleton.1 here)
  · rw [counted]
    split <;> simp [(other kind).1, incomplete]

include moved in
theorem count_advanced_of_plansMove (kind : ProgressKind) (before after : Store) :
    progress.counted.count (.advanced kind) =
      call.growth (.ok answer) before after (.advanced kind) := by
  rcases counted_of_plansMove moved with ⟨none, rfl⟩ | ⟨made, ⟨reported, rfl⟩ | ⟨reported, counted⟩⟩
  · simp [Call.growth, none, Changes.nothing]
  · simp [Call.growth, reported, Changes.count]
  · rw [counted]
    split <;> simp [Call.growth, reported, List.count_cons]

include moved in
theorem count_completed_of_plansMove
    (values : ∀ name, after.contents.value? (.backfill name) =
      (ledger.contents.insertAll progress.entries).value? (.backfill name)) :
    progress.counted.count .backfillCompleted =
      call.growth (.ok answer) ledger.contents after.contents .backfillCompleted := by
  have same : ledger.contents.Completes after.contents =
      ledger.contents.Completes (ledger.contents.insertAll progress.entries) :=
    propext (Store.completes_congr values)
  rw [Call.growth, same]
  rcases counted_of_plansMove moved with ⟨none, rfl⟩ | ⟨made, ⟨reported, rfl⟩ | ⟨reported, counted⟩⟩
  · exact (if_neg (Store.not_completes_self _)).symm
  · exact (if_neg (Store.not_completes_self _)).symm
  · rw [counted]
    split <;> simp

include moved in
theorem count_stale_of_plansMove (table : RowTable) :
    progress.counted.count (.staleIgnored table) =
      (match call.reported? (.ok answer) with
        | some (kind, .stale) => [kind.rowTable]
        | _ => []).count table := by
  rcases counted_of_plansMove moved with ⟨none, rfl⟩ | ⟨made, ⟨reported, rfl⟩ | ⟨reported, counted⟩⟩
  · rw [none]
    rfl
  · rw [reported]
    simp [Changes.count, List.count_cons]
  · rw [counted, reported]
    split <;> simp

end Commits

/-- Every counter grows as it has to with a call that needs a verified chain. -/
theorem count_of_commits (commits : call.commits = true)
    (planned : ledger.plan now call = .ok (answer, changes))
    (carried : ledger.CarriesOut changes after) (counter : Counter) :
    changes.counted.count counter =
      call.growth (.ok answer) ledger.contents after.contents counter := by
  obtain ⟨progress, rest, moved, hrest, rfl⟩ := plan_commit commits planned
  rw [Changes.counted_append, List.count_append, count_of_planEvents hrest]
  cases counter with
  | advanced kind =>
    rw [count_advanced_of_plansMove moved kind ledger.contents after.contents,
      countP_counter_eq_zero (by simp)]
    rfl
  | backfillCompleted =>
    rw [count_completed_of_plansMove moved fun name => value?_of_carriesOut carried hrest .backfill
      name, countP_counter_eq_zero (by simp)]
    rfl
  | chainChecked outcome =>
    rw [countP_counter_eq_zero (by simp), count_eq_zero_of_plansMove moved (by simp) (by simp),
      Call.growth, Call.chainCheck?_of_commits commits, if_neg (by simp)]
  | identityWritten table =>
    rw [count_eq_zero_of_plansMove moved (by simp) (by simp), Nat.zero_add, Call.growth,
      carried.contents, Changes.entries_append, Store.insertAll_append,
      ncard_changedRows (nodup_keys_coalesce call.events) hrest fun _ => value?_of_plansMove moved]
  | staleIgnored table =>
    rw [count_stale_of_plansMove moved, Call.growth, Call.staleTables, List.count_append,
      Call.staleEvents, List.count_eq_countP (l := List.map _ _), List.countP_map,
      List.countP_filter]
    refine congrArg _ (List.countP_congr fun event _ => ?_)
    simp [counter_eq_staleIgnored_iff, and_comm]

/-- With a call that moves no row, applies no event and completes no backfill, only the counter of
its check of a chain has to grow. -/
theorem growth_of_quiet {result : Except LedgerError Answer} {before after : Store}
    (unreported : call.reported? result = none) (none : call.staleEvents before result = [])
    (kept : ∀ key : Key, key.table ∈ Table.identity → after.value? key = before.value? key)
    (incomplete : ¬ before.Completes after) (counter : Counter) :
    call.growth result before after counter =
      ((call.chainCheck? before result).map Counter.chainChecked).toList.count counter := by
  have single (checked : Option Counter) :
      checked.toList.count counter = if checked = some counter then 1 else 0 := by
    cases checked with
    | none => rfl
    | some other => simp [List.count_cons]
  rw [single]
  cases counter with
  | advanced kind => simp [Call.growth, unreported]
  | backfillCompleted => simp [Call.growth, incomplete]
  | chainChecked outcome => simp [Call.growth]
  | identityWritten table => simp [Call.growth, Store.changedRows_eq_empty kept]
  | staleIgnored table => simp [Call.growth, Call.staleTables, unreported, none]

end Ledger

end IngestLedger
