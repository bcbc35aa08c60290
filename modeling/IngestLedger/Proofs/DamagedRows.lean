import IngestLedger.Proofs.Histories
import IngestLedger.Proofs.RowLayouts

/-!
# Rows that cannot be read

A value that stands under the key of a row and cannot be read as one is left where it is: it is
too short, its checksum is wrong, or what is checked is no row. Whatever writes a row reads the one
before it first, so a call that would write in the place of such a value fails while its changes
are planned, and then nothing of them is written.

Main definitions:

* `Key.rowType?`: the rows that stand under a key.
* `RowType.IsDamaged`: a value that cannot be read as a row.
* `Call.WritesTo`: a call that writes under a key, over some store.

Main statements:

* `Ledger.perform_of_isDamaged`, `Ledger.openOn_of_isDamaged`: where a damaged row is to be written,
  nothing is.
* `Session.get?_run_of_isDamaged`: a damaged row outlasts every history.
* `Ledger.damaged_never_overwritten`: damaged rows stay, whatever is called.
-/

namespace IngestLedger

/-! ### Damaged rows -/

/-- The type of the rows that stand under a key; index entries are no rows. -/
def Key.rowType? : Key → Option RowType
  | chain => some .chain
  | layout => some .layout
  | processor _ => some .processor
  | backfill _ => some .backfill
  | accountLink .. => some .accountLink
  | membership .. => some .membership
  | accountIndex .. | membershipIndex .. => none

/-- A value under a key that cannot be read as a row. -/
def RowType.IsDamaged (type : RowType) (bytes value : Bytes) : Prop :=
  ∀ row : type.Carrier, Record.decode bytes value ≠ .ok row

/-- A call that changes what stands under a key when it is made over some store. -/
def Call.WritesTo (call : Call) (bytes : Bytes) : Prop :=
  ∃ (ledger : Ledger) (now : Timestamp),
    (ledger.perform now call).2.contents.get? bytes ≠ ledger.contents.get? bytes

theorem Call.WritesTo.mem_footprint {call : Call} {key : Key} {bytes : Bytes}
    (h : call.WritesTo bytes) (hkey : key.bytes = .ok bytes) : key ∈ call.footprint := by
  obtain ⟨ledger, now, changed⟩ := h
  by_contra outside
  exact changed (Store.get?_congr hkey (Ledger.value?_perform ledger now outside))

/-- No index entry is a row. -/
theorem IdentityEvent.rowType?_reversed (event : IdentityEvent) :
    event.key.reversed.rowType? = none := by
  cases event <;> rfl

theorem exists_eq_error {ε α : Type} {x : Except ε α} (none : ∀ a, x ≠ .ok a) :
    ∃ e, x = .error e := by
  cases x with
  | error e => exact ⟨e, rfl⟩
  | ok a => exact absurd rfl (none a)

/-- A damaged row stands under a key. -/
structure Store.HasDamaged (store : Store) (key : Key) (type : RowType) (bytes value : Bytes) :
    Prop where
  key_eq : key.bytes = .ok bytes
  type_eq : key.rowType? = some type
  stored : store.get? bytes = some value
  damaged : type.IsDamaged bytes value

namespace Ledger

variable {ledger : Ledger} {key : Key} {type : RowType} {bytes value : Bytes}

/-! ### Plans that meet a damaged row -/

section Planned

variable (h : ledger.contents.HasDamaged key type bytes value)
include h

/-- A damaged row is not read. -/
theorem readRow_ne_ok (stored : Option type.Carrier) :
    ledger.readRow type.Carrier bytes ≠ .ok stored := by
  intro read
  have found : ledger.backend.contents.get? bytes = some value := h.stored
  unfold readRow Backend.get at read
  rw [found] at read
  split at read
  · cases read
  · rename_i absent
    split at absent
    · cases absent
    · cases Except.ok.inj absent
  · rename_i value' here
    split at here
    · cases here
    · obtain rfl := Option.some.inj (Except.ok.inj here)
      split at read
      · cases read
      · rename_i row decoded
        exact h.damaged row decoded

/-- So whatever reads a row of its type under its key does not go through. -/
theorem not_readRow {t : RowType} (typed : key.rowType? = some t) {other : Bytes}
    (hkey : keyBytes key = .ok other) {stored : Option t.Carrier}
    (read : ledger.readRow t.Carrier other = .ok stored) : False := by
  obtain rfl := Option.some.inj (typed.symm.trans h.type_eq)
  obtain rfl := Except.ok.inj ((keyBytes_eq_ok_iff.1 hkey).symm.trans h.key_eq)
  exact readRow_ne_ok h stored read

theorem planLayout_ne_ok (same : key = .layout) (planned : Unit × Changes) :
    ledger.planLayout ≠ .ok planned := by
  intro answered
  subst same
  obtain rfl := Option.some.inj h.type_eq
  obtain rfl := Except.ok.inj h.key_eq
  obtain ⟨stored, read, -⟩ := bind_eq_ok_iff.1 answered
  exact readRow_ne_ok h stored read

theorem chainId_ne_ok (same : key = .chain) (chain : Option ChainId) :
    ledger.chainId ≠ .ok chain := by
  intro answered
  subst same
  obtain rfl := Option.some.inj h.type_eq
  obtain rfl := Except.ok.inj h.key_eq
  unfold chainId at answered
  split at answered
  · rename_i stored read
    exact readRow_ne_ok h stored read
  · cases answered

theorem planAdvance_ne_ok (now : Timestamp) {processor : String}
    (same : key = .processor processor) (version : Version) (time : Option Timestamp)
    (planned : AdvanceOutcome × Changes) :
    ledger.planAdvance now processor version time ≠ .ok planned := by
  intro answered
  subst same
  obtain ⟨other, stored, hkey, read, -⟩ := planAdvance_ok answered
  exact not_readRow h (t := .processor) rfl hkey read

theorem planStart_ne_ok (now : Timestamp) {name : String} (same : key = .backfill name)
    (run : BackfillRun) (planned : BackfillPlan × Changes) :
    ledger.planStart now name run ≠ .ok planned := by
  intro answered
  subst same
  obtain ⟨plan, changes⟩ := planned
  obtain ⟨other, stored, hkey, read, -⟩ := planStart_ok answered
  exact not_readRow h (t := .backfill) rfl hkey read

theorem planBackfillAdvance_ne_ok (now : Timestamp) {name : String} (same : key = .backfill name)
    (version : Version) (time : Option Timestamp) (planned : AdvanceOutcome × Changes) :
    ledger.planBackfillAdvance now name version time ≠ .ok planned := by
  intro answered
  subst same
  obtain ⟨other, stored, run, hkey, read, -⟩ := planBackfillAdvance_ok answered
  exact not_readRow h (t := .backfill) rfl hkey read

theorem planEvent_ne_ok {event : IdentityEvent} (same : key = event.key)
    (planned : ApplyOutcome × Changes) : ledger.planEvent event ≠ .ok planned := by
  intro answered
  subst same
  obtain ⟨other, index, stored, hkey, -, read, -⟩ := planEvent_cases answered
  rw [← keyBytes_eq_ok_iff] at hkey
  -- the fact of the event is read as a row of its table
  cases event with
  | link link =>
    cases found : ledger.readRow AccountLink other with
    | error e => simp [readFact, found, Except.map] at read
    | ok row => exact not_readRow h (t := .accountLink) rfl hkey found
  | member member =>
    cases found : ledger.readRow Membership other with
    | error e => simp [readFact, found, Except.map] at read
    | ok row => exact not_readRow h (t := .membership) rfl hkey found

/-- Nor is a batch planned that holds an event for a damaged row, wherever it stands in it. -/
theorem planEvents_ne_ok {events : List IdentityEvent} {event : IdentityEvent}
    (member : event ∈ events) (same : key = event.key) (planned : ApplyTally × Changes) :
    ledger.planEvents events ≠ .ok planned := by
  intro answered
  induction events generalizing planned with
  | nil => cases member
  | cons head events ih =>
    obtain ⟨outcome, first, others, rest, plannedFirst, plannedRest, -⟩ :=
      planEvents_cons_ok answered
    rcases List.mem_cons.1 member with rfl | member
    · exact planEvent_ne_ok h same _ plannedFirst
    · exact ih member _ plannedRest

theorem planCheckpoint_ne_ok (now : Timestamp) {processor : String} {mode : RunMode}
    (inside : key ∈ mode.progressKeys processor) (batch : BatchInfo)
    (planned : CheckpointOutcome × Changes) :
    ledger.planCheckpoint now processor batch mode ≠ .ok planned := by
  obtain ⟨outcome, changes⟩ := planned
  intro answered
  rcases planCheckpoint_cases answered with ⟨initial, moved, rfl, advancing, -⟩ |
    ⟨id, initial, ending, overwrite, moved, rfl, advancing, -⟩ | ⟨start, ending, rfl, -⟩
  · exact planAdvance_ne_ok h now (List.mem_singleton.1 inside) _ _ _ advancing
  · exact planBackfillAdvance_ne_ok h now (List.mem_singleton.1 inside) _ _ _ advancing
  · cases inside

theorem planBatch_ne_ok (now : Timestamp) {processor : String} {mode : RunMode}
    {events : List IdentityEvent}
    (inside : key ∈ mode.progressKeys processor ++ events.flatMap IdentityEvent.keys)
    (batch : BatchInfo) (planned : BatchOutcome × Changes) :
    ledger.planBatch now processor mode batch events ≠ .ok planned := by
  intro answered
  obtain ⟨progress, rest, hprogress, hrest, -⟩ := planBatch_eq_ok_iff.1 answered
  rcases List.mem_append.1 inside with here | here
  · exact planCheckpoint_ne_ok h now here batch _ hprogress
  · obtain ⟨event, member, written⟩ := List.mem_flatMap.1 here
    rcases List.mem_pair.1 written with same | same
    · -- coalescing keeps an event for each row
      rcases forall_ne_or_exists_isPicked isTieRule_last events key with none | ⟨kept, hkept, row⟩
      · exact none event member same.symm
      · exact planEvents_ne_ok h (mem_coalesce_iff.2 hkept) row.symm _ hrest
    · have indexed := h.type_eq
      rw [same, event.rowType?_reversed] at indexed
      cases indexed

end Planned

/-! ### Calls that meet a damaged row -/

/-- A transaction without a plan does nothing. -/
theorem transact_of_forall_ne_ok {α : Type} {planned : Except LedgerError (α × Changes)}
    (none : ∀ answer, planned ≠ .ok answer) :
    ∃ e, ledger.transact planned = (.error e, ledger) := by
  obtain ⟨e, rfl⟩ := exists_eq_error none
  exact ⟨e, rfl⟩

/-- Nor does one whose plan is guarded by the chain. -/
theorem transact_guarded_of_forall_ne_ok {α : Type} {plan : Except LedgerError (α × Changes)}
    (none : ∀ answer, plan ≠ .ok answer) :
    ∃ e, ledger.transact (do let _ ← ledger.ensureVerified; plan) = (.error e, ledger) := by
  refine transact_of_forall_ne_ok fun answer planned => ?_
  obtain ⟨-, -, planned⟩ := bind_eq_ok_iff.1 planned
  exact none answer planned

theorem startOrResume_of_isDamaged (h : ledger.contents.HasDamaged key type bytes value)
    (now : Timestamp) {name : String} (same : key = .backfill name) (run : BackfillRun) :
    ∃ e, ledger.startOrResume now name run = (.error e, ledger) := by
  obtain ⟨e, failed⟩ := transact_of_forall_ne_ok (planStart_ne_ok h now same run)
  exact ⟨e, by rw [startOrResume, failed]⟩

/-- A call that may write in the place of a damaged row fails and does nothing. -/
theorem perform_of_isDamaged (h : ledger.contents.HasDamaged key type bytes value)
    (now : Timestamp) {call : Call} (inside : key ∈ call.footprint) :
    ∃ e, ledger.perform now call = (.error e, ledger) := by
  cases call with
  | verifyChain chain =>
    obtain ⟨e, read⟩ := exists_eq_error (chainId_ne_ok h (List.mem_singleton.1 inside))
    exact ⟨e, by simp only [perform, verifyChain, read]; rfl⟩
  | advance processor version time =>
    obtain ⟨e, failed⟩ := transact_guarded_of_forall_ne_ok
      (planAdvance_ne_ok h now (List.mem_singleton.1 inside) version time)
    exact ⟨e, by rw [perform, advance, failed]; rfl⟩
  | startOrResume name run =>
    obtain ⟨e, failed⟩ :=
      startOrResume_of_isDamaged h now (BackfillRun.eq_of_mem_keys inside) run
    exact ⟨e, by rw [perform, failed]; rfl⟩
  | advanceBackfill name version time =>
    obtain ⟨e, failed⟩ := transact_guarded_of_forall_ne_ok
      (planBackfillAdvance_ne_ok h now (List.mem_singleton.1 inside) version time)
    exact ⟨e, by rw [perform, advanceBackfill, failed]; rfl⟩
  | apply event =>
    have same : key = event.key := by
      rcases List.mem_pair.1 inside with same | same
      · exact same
      · have indexed := h.type_eq
        rw [same, event.rowType?_reversed] at indexed
        cases indexed
    obtain ⟨e, failed⟩ := transact_guarded_of_forall_ne_ok (planEvent_ne_ok h same)
    exact ⟨e, by rw [perform, apply, failed]; rfl⟩
  | resolveRange processor mode =>
    cases mode with
    | live initial => cases inside
    | backfill id initial ending overwrite =>
      obtain ⟨e, failed⟩ := startOrResume_of_isDamaged h now
        (BackfillRun.eq_of_mem_keys inside) ⟨initial, ending, overwrite⟩
      exact ⟨e, by rw [perform, resolveRange, failed]; rfl⟩
    | testing start ending => cases inside
  | commitBatch processor mode batch events =>
    obtain ⟨e, failed⟩ :=
      transact_guarded_of_forall_ne_ok (planBatch_ne_ok h now inside batch)
    exact ⟨e, by rw [perform, commitBatch, failed]; rfl⟩

/-- Where the marker of the layout is damaged, opening fails and writes nothing. -/
theorem openOn_of_isDamaged {backend : Backend}
    (h : backend.contents.HasDamaged .layout type bytes value) (counters : Counters) :
    ∃ e, openOn backend counters = (.error e, fresh backend counters) := by
  have damaged : (fresh backend counters).contents.HasDamaged .layout type bytes value := h
  exact transact_of_forall_ne_ok (planLayout_ne_ok damaged rfl)

theorem get?_perform_of_isDamaged (h : ledger.contents.HasDamaged key type bytes value)
    (now : Timestamp) (call : Call) :
    (ledger.perform now call).2.contents.get? bytes = some value := by
  by_cases inside : key ∈ call.footprint
  · obtain ⟨e, failed⟩ := perform_of_isDamaged h now inside
    rw [failed]
    exact h.stored
  · exact (Store.get?_congr h.key_eq (value?_perform ledger now inside)).trans h.stored

theorem get?_openOn_of_isDamaged {backend : Backend}
    (h : backend.contents.HasDamaged key type bytes value) (counters : Counters) :
    (openOn backend counters).2.contents.get? bytes = some value := by
  by_cases marker : key = .layout
  · subst marker
    obtain ⟨e, failed⟩ := openOn_of_isDamaged h counters
    rw [failed]
    exact h.stored
  · have kept := (writtenWithin_openOn backend counters).value?_eq (mt List.mem_singleton.1 marker)
    exact (Store.get?_congr h.key_eq kept).trans h.stored

end Ledger

/-! ### Histories -/

namespace Session

variable {session : Session} {key : Key} {type : RowType} {bytes value : Bytes}

theorem get?_step_of_isDamaged (h : session.ledger.contents.HasDamaged key type bytes value)
    {step : Step} (lasts : step = .restart → session.ledger.backend.Lasts) :
    (session.step step).ledger.contents.get? bytes = some value := by
  cases step with
  | call now call =>
    simp only [Session.step, perform]
    split
    · exact Ledger.get?_perform_of_isDamaged h now call
    · exact h.stored
  | disturb faults => exact h.stored
  | restart =>
    simp only [Session.step, restart, ofOpening, Ledger.reopen]
    split
    · rename_i again read
      have same : again.contents = session.ledger.contents := lasts rfl again read
      exact Ledger.get?_openOn_of_isDamaged (same ▸ h) _
    · exact h.stored

/-- A damaged row outlasts every history, as it is. -/
theorem get?_run_of_isDamaged (h : session.ledger.contents.HasDamaged key type bytes value)
    {steps : List Step} (lasting : session.AtRestarts Backend.Lasts steps) :
    (session.run steps).ledger.contents.get? bytes = some value := by
  induction steps generalizing session with
  | nil => exact h.stored
  | cons step steps ih =>
    obtain ⟨lasts, rest⟩ := lasting
    exact ih { h with stored := get?_step_of_isDamaged h lasts } rest

end Session

/-- Damaged rows are never overwritten, whatever else stands in the store. No call changes the
bytes of one, and a call that would write in its place fails and does nothing at all; so does
opening the store where the marker of its layout is damaged, and otherwise opening leaves a
damaged row as it is. So a damaged row keeps its bytes through every history. -/
theorem Ledger.damaged_never_overwritten (ledger : Ledger) {key : Key} {type : RowType}
    {bytes value : Bytes} (h : ledger.contents.HasDamaged key type bytes value) :
    (∀ now call, (ledger.perform now call).2.contents.get? bytes = some value ∧
      (call.WritesTo bytes → ∃ e, ledger.perform now call = (.error e, ledger))) ∧
    (∀ counters, (openOn ledger.backend counters).2.contents.get? bytes = some value ∧
      (key = .layout →
        ∃ e, openOn ledger.backend counters = (.error e, fresh ledger.backend counters))) ∧
    ∀ isOpen steps, Session.AtRestarts Backend.Lasts ⟨ledger, isOpen⟩ steps →
      (Session.run ⟨ledger, isOpen⟩ steps).ledger.contents.get? bytes = some value := by
  refine ⟨fun now call => ⟨get?_perform_of_isDamaged h now call, fun writes => ?_⟩,
    fun counters => ⟨get?_openOn_of_isDamaged h counters, ?_⟩,
    fun isOpen steps lasting => Session.get?_run_of_isDamaged h lasting⟩
  · exact perform_of_isDamaged h now (writes.mem_footprint h.key_eq)
  · rintro rfl
    exact openOn_of_isDamaged h counters

/-! ### A batch with an event for a damaged row -/

namespace DamagedLink

/-- The bytes of a link that lost all but three of its bytes. -/
def remains : Bytes := [1, 2, 3]

/-- A store in memory with the remains of a link. -/
def backend : Backend := { contents := Store.empty.insert (Utf8.encode "a:0x1\x000xab", remains) }

/-- A ledger that has verified its chain over it. -/
def ledger : Ledger := { Ledger.fresh backend .zero with verifiedChain := some 1 }

/-- The batch has a link that could be written, and then one in the place of the damaged link. -/
def call : Call :=
  .commitBatch "p" (.live 0) ⟨0, 9, none⟩
    [.link ⟨"0x1", "0xcd", true, 5⟩, .link ⟨"0x1", "0xab", true, 5⟩]

theorem hasDamaged_ledger : ledger.contents.HasDamaged (.accountLink "0x1" "0xab") .accountLink
    (Utf8.encode "a:0x1\x000xab") remains where
  key_eq := by decide +kernel
  type_eq := rfl
  stored := by decide +kernel
  damaged row read := by simp [Record.decode, remains] at read

/-- Nothing of the batch is written. -/
theorem nothing_written : ∃ e, ledger.perform 7 call = (.error e, ledger) := by
  have writes : call.WritesTo (Utf8.encode "a:0x1\x000xab") :=
    ⟨{ ledger with backend := .inMemory }, 7, by decide +kernel⟩
  exact ((ledger.damaged_never_overwritten hasDamaged_ledger).1 7 call).2 writes

end DamagedLink

end IngestLedger
