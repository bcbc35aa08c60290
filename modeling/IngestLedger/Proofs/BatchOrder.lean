import IngestLedger.Proofs.Histories
import IngestLedger.Proofs.PartialCoalescing
import IngestLedger.Proofs.PlannedEvents
import Mathlib.Data.List.Nodup

/-!
# The order of a batch

A batch is planned event by event against the store as it was before it, so nothing that it writes
may stand under a key that it also writes otherwise. This is so: the progress row, the rows of the
coalesced events and their index entries stand under different keys, whatever the store holds. Hence
the order in which the coalesced events are staged matters to nothing but the journal.

Main definitions:

* `Changes.WritesUnder`: changes that write under given keys, in their order.
* `RunMode.stagedKeys`, `IdentityEvent.stagedKeys`: the keys that a batch writes under.
* `Changes.Reorders`: changes that write and count the same in another order.

Main statements:

* `Ledger.writesUnder_planBatch`, `nodup_stagedKeys`: a batch writes under different keys.
* `Ledger.planEvents_perm`, `Ledger.planBatch_perm`: events that are staged in another order.
* `Ledger.transact_of_reorders`: changes that are written in another order.
* `Ledger.commitBatch_in_any_order`: a batch whose events are staged in any order.
-/

namespace IngestLedger

/-! ### Changes under given keys -/

/-- Changes that write one entry under each of the given keys, in their order, and nothing else. -/
def Changes.WritesUnder (keys : List Key) (changes : Changes) : Prop :=
  keys.map Key.bytes = changes.entries.map fun e => Except.ok e.1

namespace Changes

variable {keys others : List Key} {c d : Changes}

theorem writesUnder_nil (h : c.entries = []) : c.WritesUnder [] := by
  rw [WritesUnder, h]
  rfl

theorem writesUnder_row {key : Key} {bytes value : Bytes} {counted : List Counter}
    (hkey : key.bytes = .ok bytes) : WritesUnder [key] ⟨[(bytes, value)], counted⟩ :=
  congrArg ([·]) hkey

theorem WritesUnder.append (hc : c.WritesUnder keys) (hd : d.WritesUnder others) :
    (c ++ d).WritesUnder (keys ++ others) := by
  rw [WritesUnder, List.map_append, hc, hd, entries_append, List.map_append]

/-- Under different keys, no two entries have the same one. -/
theorem WritesUnder.nodup (h : c.WritesUnder keys) (distinct : keys.Nodup) :
    (c.entries.map Prod.fst).Nodup := by
  have apart : (keys.map Key.bytes).Nodup := by
    refine distinct.map_on fun key here other _ equal => ?_
    -- a key that is written has bytes, and these tell which one it is
    obtain ⟨e, -, hkey⟩ := List.mem_map.1 (h ▸ List.mem_map_of_mem here)
    exact Key.bytes_injective hkey.symm (equal.symm.trans hkey.symm)
  rw [h, ← Function.comp_def, ← List.map_map] at apart
  exact apart.of_map

end Changes

/-! ### The keys of a batch -/

/-- The keys that a batch of a mode writes under for its progress, by what comes of that. -/
def RunMode.stagedKeys (processor : String) (outcome : CheckpointOutcome) (mode : RunMode) :
    List Key :=
  if outcome = .advanced then mode.progressKeys processor else []

/-- The keys that an event is written under over a store: none if its row is as new. -/
def IdentityEvent.stagedKeys (store : Store) (event : IdentityEvent) : List Key :=
  if store.HasReached event.key event.version then [] else event.keys

/-- Events for different rows have no key in common. -/
theorem IdentityEvent.disjoint_keys {a b : IdentityEvent} (different : a.key ≠ b.key) :
    a.keys.Disjoint b.keys := by
  intro key here there
  rcases List.mem_pair.1 here with rfl | rfl
  · rcases List.mem_pair.1 there with same | same
    · exact different same
    · exact a.key_ne_reversed b same
  · rcases List.mem_pair.1 there with same | same
    · exact b.key_ne_reversed a same.symm
    · rw [← a.key.reversed_reversed, same, Key.reversed_reversed] at different
      exact different rfl

theorem IdentityEvent.stagedKeys_sublist (store : Store) (event : IdentityEvent) :
    (event.stagedKeys store).Sublist event.keys := by
  unfold stagedKeys
  split
  · exact List.nil_sublist _
  · exact List.Sublist.refl _

theorem RunMode.stagedKeys_sublist (mode : RunMode) (processor : String)
    (outcome : CheckpointOutcome) :
    (mode.stagedKeys processor outcome).Sublist (mode.progressKeys processor) := by
  unfold stagedKeys
  split
  · exact List.Sublist.refl _
  · exact List.nil_sublist _

/-- The keys for the progress of a mode and for events of different rows are all different. -/
theorem nodup_stagedKeys (processor : String) (mode : RunMode) (outcome : CheckpointOutcome)
    (store : Store) {events : List IdentityEvent}
    (distinct : (events.map IdentityEvent.key).Nodup) :
    (mode.stagedKeys processor outcome ++
      events.flatMap (IdentityEvent.stagedKeys store)).Nodup := by
  refine List.nodup_append.2 ⟨?_, List.nodup_flatMap.2 ⟨fun event _ => ?_, ?_⟩, ?_⟩
  · refine (mode.stagedKeys_sublist processor outcome).nodup ?_
    cases mode with
    | live | backfill => exact List.nodup_singleton _
    | testing => exact List.nodup_nil
  · refine (event.stagedKeys_sublist store).nodup ?_
    simpa [IdentityEvent.keys] using event.key_ne_reversed event
  · refine (List.pairwise_map.1 distinct).imp fun {a b} different => ?_
    exact List.disjoint_of_subset_left (a.stagedKeys_sublist store).subset
      (List.disjoint_of_subset_right (b.stagedKeys_sublist store).subset
        (IdentityEvent.disjoint_keys different))
  · rintro key here _ there rfl
    obtain ⟨event, -, inside⟩ := List.mem_flatMap.1 there
    exact RunMode.table_notMem_identity ((mode.stagedKeys_sublist processor outcome).subset here)
      (event.table_mem_of_mem_keys ((event.stagedKeys_sublist store).subset inside))

namespace Ledger

variable {ledger : Ledger} {now : Timestamp} {processor : String} {mode : RunMode}
  {batch : BatchInfo} {events others : List IdentityEvent} {tally : ApplyTally} {changes : Changes}

theorem writesUnder_planCheckpoint {outcome : CheckpointOutcome}
    (planned : ledger.planCheckpoint now processor batch mode = .ok (outcome, changes)) :
    changes.WritesUnder (mode.stagedKeys processor outcome) := by
  rcases planCheckpoint_cases planned with ⟨initial, moved, rfl, advancing, rfl⟩ |
    ⟨id, initial, ending, overwrite, moved, rfl, advancing, rfl⟩ | ⟨start, ending, rfl, rfl, rfl⟩
  · obtain ⟨bytes, stored, hkey, -, ⟨-, rfl, rfl⟩ | ⟨-, rfl, value, -, rfl⟩⟩ :=
      planAdvance_ok advancing
    · exact Changes.writesUnder_nil rfl
    · exact Changes.writesUnder_row (keyBytes_eq_ok_iff.1 hkey)
  · obtain ⟨bytes, stored, run, hkey, -, -, -, ⟨-, rfl, rfl⟩ | ⟨-, rfl, value, -, rfl⟩⟩ :=
      planBackfillAdvance_ok advancing
    · exact Changes.writesUnder_nil rfl
    · exact Changes.writesUnder_row (keyBytes_eq_ok_iff.1 hkey)
  · exact Changes.writesUnder_nil rfl

theorem writesUnder_planEvent {event : IdentityEvent} {outcome : ApplyOutcome}
    (planned : ledger.planEvent event = .ok (outcome, changes)) :
    changes.WritesUnder (event.stagedKeys ledger.contents) := by
  rcases planEvent_reached planned with ⟨reached, -, rfl⟩ | ⟨fresh, rfl, -⟩
  · rw [IdentityEvent.stagedKeys, if_pos reached]
    exact Changes.writesUnder_nil rfl
  · rw [IdentityEvent.stagedKeys, if_neg fresh]
    obtain ⟨row, index, stored, hrow, hindex, -, ⟨-, stale, -⟩ | ⟨-, -, value, -, rfl⟩⟩ :=
      planEvent_cases planned
    · cases stale
    · have written : Changes.WritesUnder [event.key] ⟨[(row, value)], []⟩ :=
        Changes.writesUnder_row hrow
      have indexed : Changes.WritesUnder [event.key.reversed] ⟨[(index, [])], []⟩ :=
        Changes.writesUnder_row hindex
      exact written.append indexed

theorem writesUnder_planEvents (planned : ledger.planEvents events = .ok (tally, changes)) :
    changes.WritesUnder (events.flatMap (IdentityEvent.stagedKeys ledger.contents)) :=
  planEvents_keeps (fun c keys => c.WritesUnder keys) (IdentityEvent.stagedKeys ledger.contents)
    (Changes.writesUnder_nil rfl) Changes.WritesUnder.append writesUnder_planEvent planned

/-- A batch writes the progress of its mode first, and then for each of its rows the event that
coalescing has kept and the index entry, in the order in which the rows first occur. -/
theorem writesUnder_planBatch {outcome : BatchOutcome}
    (planned : ledger.planBatch now processor mode batch events = .ok (outcome, changes)) :
    changes.WritesUnder (mode.stagedKeys processor outcome.checkpoint ++
      (coalesce events).flatMap (IdentityEvent.stagedKeys ledger.contents)) := by
  obtain ⟨progress, rest, hprogress, hrest, rfl⟩ := planBatch_eq_ok_iff.1 planned
  exact (writesUnder_planCheckpoint hprogress).append (writesUnder_planEvents hrest)

end Ledger

/-! ### Staging in another order -/

/-- Changes that write the same entries and count the same things, in whatever order. -/
structure Changes.Reorders (c d : Changes) : Prop where
  entries : c.entries.Perm d.entries
  counted : c.counted.Perm d.counted

namespace Changes.Reorders

variable {b c d : Changes}

theorem refl (c : Changes) : c.Reorders c := ⟨.refl _, .refl _⟩

theorem trans (first : b.Reorders c) (second : c.Reorders d) : b.Reorders d :=
  ⟨first.entries.trans second.entries, first.counted.trans second.counted⟩

theorem append_left (h : c.Reorders d) (b : Changes) : (b ++ c).Reorders (b ++ d) :=
  ⟨h.entries.append_left b.entries, h.counted.append_left b.counted⟩

/-- Two parts may be exchanged in front of a third one. -/
theorem exchange (b c d : Changes) : (c ++ (b ++ d)).Reorders (b ++ (c ++ d)) :=
  ⟨List.perm_append_comm_assoc c.entries b.entries d.entries,
    List.perm_append_comm_assoc c.counted b.counted d.counted⟩

end Changes.Reorders

theorem ApplyTally.add_comm (tally : ApplyTally) (a b : ApplyOutcome) :
    (tally.add a).add b = (tally.add b).add a := by
  cases a <;> cases b <;> rfl

namespace Ledger

variable {ledger : Ledger} {now : Timestamp} {processor : String} {mode : RunMode}
  {batch : BatchInfo} {events others : List IdentityEvent} {tally : ApplyTally} {changes : Changes}

/-- Events that are staged in another order write the same entries and are counted alike, since each
of them is planned against the store as it was. -/
theorem planEvents_perm (perm : events.Perm others)
    (planned : ledger.planEvents events = .ok (tally, changes)) :
    ∃ reordered, ledger.planEvents others = .ok (tally, reordered) ∧
      reordered.Reorders changes := by
  induction perm generalizing tally changes with
  | nil => exact ⟨changes, planned, .refl changes⟩
  | cons event _ ih =>
    obtain ⟨outcome, first, tally, rest, plannedFirst, plannedRest, rfl, rfl⟩ :=
      planEvents_cons_ok planned
    obtain ⟨reordered, hreordered, reorders⟩ := ih plannedRest
    exact ⟨first ++ reordered, planEvents_cons plannedFirst hreordered,
      reorders.append_left first⟩
  | swap a b events =>
    obtain ⟨outcome, first, _, _, plannedFirst, remaining, rfl, rfl⟩ := planEvents_cons_ok planned
    obtain ⟨outcome', second, tally, rest, plannedSecond, plannedRest, rfl, rfl⟩ :=
      planEvents_cons_ok remaining
    refine ⟨second ++ (first ++ rest), ?_, .exchange first second rest⟩
    rw [ApplyTally.add_comm]
    exact planEvents_cons plannedSecond (planEvents_cons plannedFirst plannedRest)
  | trans _ _ ih ih' =>
    obtain ⟨between, hbetween, first⟩ := ih planned
    obtain ⟨reordered, hreordered, second⟩ := ih' hbetween
    exact ⟨reordered, hreordered, second.trans first⟩

/-- Every staged event is counted, as applied or as stale. -/
theorem applied_add_stale_of_planEvents
    (planned : ledger.planEvents events = .ok (tally, changes)) :
    tally.applied + tally.stale = events.length := by
  obtain ⟨applied, stale⟩ := tally_of_planEvents planned
  rw [applied, stale, Nat.add_comm, List.length_eq_countP_add_countP
    fun event : IdentityEvent => decide (ledger.contents.HasReached event.key event.version)]
  simp

/-- Changes under different keys come to the same in any order, whether they can be written or not;
only the journal tells the order. -/
theorem transact_of_reorders {α : Type} {answer : α} {reordered : Changes}
    (reorders : reordered.Reorders changes) (distinct : (changes.entries.map Prod.fst).Nodup)
    (ledger : Ledger) : ∃ journal, ledger.transact (.ok (answer, reordered)) =
      ((ledger.transact (.ok (answer, changes))).1,
        { (ledger.transact (.ok (answer, changes))).2 with journal }) := by
  have counted : ledger.counters.add reordered.counted = ledger.counters.add changes.counted := by
    simp only [Counters.add, reorders.counted.count_eq]
  have write : ledger.backend.write reordered.entries = ledger.backend.write changes.entries := by
    simp only [Backend.write, Backend.overwrite,
      Store.insertAll_perm reorders.entries.symm distinct]
  by_cases empty : changes.entries = []
  · have empty' : reordered.entries = [] := (empty ▸ reorders.entries).eq_nil
    rw [transact_of_entries_nil rfl empty, transact_of_entries_nil rfl empty', counted]
    exact ⟨ledger.journal, rfl⟩
  · have some_entry : ¬ changes.entries.isEmpty = true := mt List.isEmpty_iff.1 empty
    cases written : ledger.backend.write changes.entries with
    | mk result backend =>
      simp only [transact, carryOut, reorders.entries.isEmpty_eq, if_neg some_entry, write, written,
        counted]
      cases result with
      | ok _ => exact ⟨_, rfl⟩
      | error e => exact ⟨ledger.journal, rfl⟩

/-- The coalesced events of a batch in any order are a batch that is planned alike. -/
theorem planBatch_perm {outcome : BatchOutcome} (perm : others.Perm (coalesce events))
    (planned : ledger.planBatch now processor mode batch events = .ok (outcome, changes)) :
    coalesce others = others ∧ ∃ reordered,
      ledger.planBatch now processor mode batch others = .ok (outcome, reordered) ∧
      reordered.Reorders changes := by
  have same : coalesce others = others :=
    coalesce_eq_self_iff.2 ((perm.map _).nodup_iff.2 (nodup_keys_coalesce events))
  obtain ⟨progress, rest, hprogress, hrest, rfl⟩ := planBatch_eq_ok_iff.1 planned
  obtain ⟨reordered, hreordered, reorders⟩ := planEvents_perm perm.symm hrest
  exact ⟨same, progress ++ reordered,
    planBatch_eq_ok_iff.2 ⟨progress, reordered, hprogress, same.symm ▸ hreordered, rfl⟩,
    reorders.append_left progress⟩

/-- What a batch stages stands under different keys, over every store and in every mode: the key of
its progress, if that advances, and the keys of each coalesced event whose row is older. Every
coalesced event is counted as applied or as stale. So the coalesced events may be staged in any
order: coalescing leaves them as they are, the same is answered with the same counts, the same
entries are written, and the ledger is afterwards the same in all but the order of its journal. -/
theorem commitBatch_in_any_order {outcome : BatchOutcome}
    (planned : ledger.planBatch now processor mode batch events = .ok (outcome, changes)) :
    changes.WritesUnder (mode.stagedKeys processor outcome.checkpoint ++
      (coalesce events).flatMap (IdentityEvent.stagedKeys ledger.contents)) ∧
    (changes.entries.map Prod.fst).Nodup ∧
    outcome.events.applied + outcome.events.stale = (coalesce events).length ∧
    ∀ kept, kept.Perm (coalesce events) → coalesce kept = kept ∧
      ∃ reordered journal,
        ledger.planBatch now processor mode batch kept = .ok (outcome, reordered) ∧
        reordered.entries.Perm changes.entries ∧
        ledger.commitBatch now processor mode batch kept =
          ((ledger.commitBatch now processor mode batch events).1,
            { (ledger.commitBatch now processor mode batch events).2 with journal }) := by
  have under := writesUnder_planBatch planned
  have apart := under.nodup (nodup_stagedKeys processor mode outcome.checkpoint ledger.contents
    (nodup_keys_coalesce events))
  obtain ⟨progress, rest, hprogress, hrest, rfl⟩ := planBatch_eq_ok_iff.1 planned
  refine ⟨under, apart, applied_add_stale_of_planEvents hrest, fun kept perm => ?_⟩
  obtain ⟨same, reordered, whole, reorders⟩ := planBatch_perm perm planned
  obtain ⟨journal, result⟩ : ∃ journal, ledger.commitBatch now processor mode batch kept =
      ((ledger.commitBatch now processor mode batch events).1,
        { (ledger.commitBatch now processor mode batch events).2 with journal }) := by
    simp only [commitBatch, planned, whole]
    cases ledger.ensureVerified with
    | error e => exact ⟨ledger.journal, rfl⟩
    | ok chain => exact transact_of_reorders reorders apart ledger
  exact ⟨same, reordered, journal, whole, reorders.entries, result⟩

end Ledger

/-! ### A batch that is turned round -/

namespace TurnedBatch

/-- A ledger in memory with a link and with a backfill that has begun. -/
def ledger : Ledger := ((Session.start .inMemory .zero).2.run
  [.call 0 (.verifyChain 1), .call 1 (.apply (.link ⟨"0x1", "0xab", true, 5⟩)),
    .call 2 (.resolveRange "p" (.backfill "b" 0 (some 9) false))]).ledger

/-- An old link, a membership that is superseded in the batch, and a new link. -/
def events : List IdentityEvent :=
  [.link ⟨"0x1", "0xab", false, 4⟩, .member ⟨"0xcd", "k", "ed25519", none, true, "ed25519", 6⟩,
    .link ⟨"0x1", "0xcd", true, 6⟩, .member ⟨"0xcd", "k", "ed25519", none, false, "ed25519", 7⟩]

/-- A run of the backfill. -/
def mode : RunMode := .backfill "b" 0 (some 9) false

/-- What the batch stages. -/
def changes : Changes :=
  match ledger.planBatch 3 "p" mode ⟨0, 9, none⟩ events with
  | .ok (_, changes) => changes
  | .error _ => .nothing

/-- The progress row, two rows and two index entries are staged under five keys, and turned round
the coalesced events are answered alike and leave the same store. -/
theorem same_turned_round :
    (changes.entries.map Prod.fst).Nodup ∧ changes.entries.length = 5 ∧
    (ledger.commitBatch 3 "p" mode ⟨0, 9, none⟩ (coalesce events).reverse).1 =
      .ok ⟨.advanced, 2, 1⟩ ∧
    (ledger.commitBatch 3 "p" mode ⟨0, 9, none⟩ (coalesce events).reverse).2.contents =
      (ledger.commitBatch 3 "p" mode ⟨0, 9, none⟩ events).2.contents := by
  have planned : ledger.planBatch 3 "p" mode ⟨0, 9, none⟩ events =
      .ok (⟨.advanced, 2, 1⟩, changes) := by decide +kernel
  have answered :
      (ledger.commitBatch 3 "p" mode ⟨0, 9, none⟩ events).1 = .ok ⟨.advanced, 2, 1⟩ := by
    decide +kernel
  obtain ⟨-, distinct, -, reorder⟩ := Ledger.commitBatch_in_any_order planned
  obtain ⟨-, reordered, journal, -, -, same⟩ := reorder _ (List.reverse_perm _)
  have staged : changes.entries.length = 5 := by decide +kernel
  generalize ledger.commitBatch 3 "p" mode ⟨0, 9, none⟩ events = result at same answered ⊢
  rw [same]
  exact ⟨distinct, staged, answered, rfl⟩

end TurnedBatch

end IngestLedger
