import IngestLedger.Proofs.Agreement
import IngestLedger.Proofs.Records
import IngestLedger.Proofs.Verification

/-!
# Runs that do not interfere

Live, backfill and testing runs share a store, and all of them write to the identity tables. Still
the progress of live runs does not depend on what backfills and testing runs did, nor the other way
round: when the operations of the others are left out of a history, the answers about progress and
the rows of progress stay the same. The identity tables can only change how many events of a batch
are stale: an event is refused for a row that cannot be read, and such a row nobody replaces.

Main definitions:

* `Call.isKeptFor`: the calls that are left when the others are left out.
* `Ledger.LiveAlike`, `Ledger.BackfillsAlike`: the same answers about progress, and the same rows.

Main statements:

* `Ledger.AgreesOn.perform`: a call that is kept, made by both ledgers.
* `Ledger.AgreesOn.perform_left_out`: a call that is left out, made by the one only.
* `Ledger.noninterference`: leaving out the operations of the others.
-/

namespace IngestLedger

/-! ### Calls that are kept and calls that are left out -/

/-- The calls that are kept when the operations of other runs are left out: those of runs that keep
progress of a kind, and those of no run. -/
def Call.isKeptFor (kind : ProgressKind) : Call → Bool
  | verifyChain _ | apply _ => true
  | advance .. => kind = .live
  | startOrResume .. | advanceBackfill .. => kind = .backfill
  | resolveRange _ mode | commitBatch _ mode .. => mode.kind? = some kind

/-- A call that is left out does not write to the progress rows of the kind. -/
theorem Call.table_notMem_of_left_out {kind : ProgressKind} {call : Call}
    (left_out : call.isKeptFor kind = false) : kind.table ∉ call.tables := by
  have modes : ∀ mode : RunMode, decide (mode.kind? = some kind) = false →
      kind.table ∉ mode.tables := by
    intro mode other
    cases mode <;> cases kind <;> simp_all [RunMode.tables, RunMode.kind?, ProgressKind.table]
  cases call with
  | verifyChain chain => cases left_out
  | apply event => cases left_out
  | advance processor version time =>
    cases kind with
    | live => cases left_out
    | backfill => simp [tables, ProgressKind.table]
  | startOrResume name run =>
    cases kind with
    | live => simp [tables, ProgressKind.table]
    | backfill => cases left_out
  | advanceBackfill name version time =>
    cases kind with
    | live => simp [tables, ProgressKind.table]
    | backfill => cases left_out
  | resolveRange processor mode => exact modes mode left_out
  | commitBatch processor mode batch events =>
    intro inside
    rcases List.mem_append.1 inside with here | here
    · exact modes mode left_out here
    · exact kind.table_notMem_identity here

/-- A call that is left out for backfills starts none. -/
theorem Call.started?_of_left_out {call : Call} (left_out : call.isKeptFor .backfill = false) :
    call.started? = none := by
  cases call with
  | startOrResume name run => cases left_out
  | resolveRange processor mode =>
    cases mode with
    | backfill id initial ending overwrite => cases left_out
    | live initial => rfl
    | testing start ending => rfl
  | _ => rfl

namespace Ledger

variable {ledger other : Ledger} {kind : ProgressKind} {call : Call}

namespace AgreesOn

/-- A call that is kept, made by both ledgers. -/
theorem progressAlike (h : ledger.AgreesOn kind other) (now : Timestamp)
    (kept : call.isKeptFor kind = true)
    (fits : ∀ event ∈ call.events, event.record.isOk = true) :
    ProgressAlike kind (fun _ => ()) (ledger.perform now call) (other.perform now call) := by
  cases call with
  | verifyChain chain => exact (h.verifyChain chain).answering _
  | apply event => exact (h.apply (fits event (List.mem_singleton_self event))).answering _
  | advance processor version time =>
    obtain rfl : kind = .live := of_decide_eq_true kept
    exact (h.advance now processor version time).answering _
  | startOrResume name run =>
    obtain rfl : kind = .backfill := of_decide_eq_true kept
    exact (h.startOrResume now name run).answering _
  | advanceBackfill name version time =>
    obtain rfl : kind = .backfill := of_decide_eq_true kept
    exact (h.advanceBackfill now name version time).answering _
  | resolveRange processor mode =>
    have own := of_decide_eq_true kept
    cases mode with
    | live initial =>
      obtain rfl := Option.some.inj own
      exact (h.resolveRange_live now processor initial).answering _
    | backfill name initial ending overwrite =>
      obtain rfl := Option.some.inj own
      exact (h.resolveRange_backfill now processor name ⟨initial, ending, overwrite⟩).answering _
    | testing start ending => cases own
  | commitBatch processor mode batch events =>
    exact (h.commitBatch now processor (of_decide_eq_true kept) batch fits).answering _

theorem perform (h : ledger.AgreesOn kind other) (now : Timestamp)
    (kept : call.isKeptFor kind = true)
    (fits : ∀ event ∈ call.events, event.record.isOk = true) :
    (ledger.perform now call).2.AgreesOn kind (other.perform now call).2 := by
  have alike := h.progressAlike now kept fits
  exact {
    faults := by rw [faults_perform, faults_perform, h.faults]
    takes := perform_preserves (fun _ batch takes => takes.write batch) h.takes now call
    takes' := perform_preserves (fun _ batch takes => takes.write batch) h.takes' now call
    verifiedChain := alike.verifiedChain
    runs := alike.runs
    chain := alike.chain
    progress := alike.progress
    readable := fun key versioned => (h.readable key versioned).of_givesWay
      (givesWay_perform ledger now call versioned) (givesWay_perform other now call versioned) }

/-- A call that is left out, made by the one ledger only. -/
theorem perform_left_out (h : ledger.AgreesOn kind other) (now : Timestamp)
    (left_out : call.isKeptFor kind = false) :
    (ledger.perform now call).2.AgreesOn kind other := by
  have verifies_not : ∀ chain, call ≠ .verifyChain chain := fun chain same => by
    rw [same] at left_out
    cases left_out
  have written := writtenWithin_perform ledger now call
  have verified : (ledger.perform now call).2.verifiedChain = ledger.verifiedChain := by
    rcases verifiedChain_perform ledger now call with kept | ⟨chain, verifying, -⟩
    · exact kept
    · exact absurd verifying (verifies_not chain)
  have runs : kind = .backfill → (ledger.perform now call).2.runs = ledger.runs := by
    rintro rfl
    funext name
    refine runs_perform ledger now ?_
    rw [Call.started?_of_left_out left_out]
    exact nofun
  have chain : Store.SameTable .chain ledger.contents (ledger.perform now call).2.contents :=
    written.sameTable fun key inside same => Call.chain_notMem_tables verifies_not
      (same ▸ Call.table_mem_of_mem_footprint inside)
  have progress : Store.SameTable kind.table ledger.contents
      (ledger.perform now call).2.contents :=
    written.sameTable fun key inside same => Call.table_notMem_of_left_out left_out
      (same ▸ Call.table_mem_of_mem_footprint inside)
  exact {
    faults := by rw [faults_perform, h.faults]
    takes := perform_preserves (fun _ batch takes => takes.write batch) h.takes now call
    takes' := h.takes'
    verifiedChain := h.verifiedChain.trans verified.symm
    runs := fun backfill => (h.runs backfill).trans (runs backfill).symm
    chain := chain.symm.trans h.chain
    progress := progress.symm.trans h.progress
    readable := fun key versioned => (h.readable key versioned).of_givesWay
      (givesWay_perform ledger now call versioned) (.refl other.contents key) }

theorem refl (takes : ledger.backend.TakesAll) : ledger.AgreesOn kind ledger where
  faults := rfl
  takes := takes
  takes' := takes
  verifiedChain := rfl
  runs _ := rfl
  chain := .refl _ _
  progress := .refl _ _
  readable _ _ := .inl rfl

end AgreesOn

/-- The ledger after calls, each made at its time, whatever they are answered. -/
def performEach (ledger : Ledger) (calls : List (Timestamp × Call)) : Ledger :=
  calls.foldl (fun ledger made => (ledger.perform made.1 made.2).2) ledger

/-- The calls of a history that are kept. -/
def keptCalls (kind : ProgressKind) (calls : List (Timestamp × Call)) : List (Timestamp × Call) :=
  calls.filter fun made => made.2.isKeptFor kind

theorem keptCalls_cons (kind : ProgressKind) (made : Timestamp × Call)
    (calls : List (Timestamp × Call)) : keptCalls kind (made :: calls) =
      if made.2.isKeptFor kind then made :: keptCalls kind calls else keptCalls kind calls :=
  List.filter_cons

/-- Leaving out the operations of other runs, the ledgers agree on the progress of the kind. -/
theorem AgreesOn.performEach (h : ledger.AgreesOn kind other) {calls : List (Timestamp × Call)}
    (fits : ∀ made ∈ calls, ∀ event ∈ made.2.events, event.record.isOk = true) :
    (ledger.performEach calls).AgreesOn kind (other.performEach (keptCalls kind calls)) := by
  induction calls generalizing ledger other with
  | nil => exact h
  | cons made calls ih =>
    have later := fun made' member => fits made' (List.mem_cons_of_mem made member)
    have first := fits made List.mem_cons_self
    cases kept : made.2.isKeptFor kind with
    | true =>
      rw [keptCalls_cons, if_pos kept]
      exact ih (h.perform made.1 kept first) later
    | false =>
      rw [keptCalls_cons, if_neg (by rw [kept]; exact Bool.false_ne_true)]
      exact ih (h.perform_left_out made.1 kept) later

/-! ### Noninterference -/

/-- The operations of live runs are answered alike, up to the number of stale events of a batch, and
the rows of processors are the same. -/
structure LiveAlike (ledger other : Ledger) : Prop where
  advance : ∀ now processor version time, (other.advance now processor version time).1 =
    (ledger.advance now processor version time).1
  resumeVersion : ∀ processor initial,
    other.resumeVersion processor initial = ledger.resumeVersion processor initial
  checkpoint : ∀ processor, other.checkpoint processor = ledger.checkpoint processor
  resolveRange : ∀ now processor initial,
    (other.resolveRange now processor (.live initial)).1 =
      (ledger.resolveRange now processor (.live initial)).1
  commitBatch : ∀ now processor initial batch events,
    (∀ event ∈ events, ∀ text ∈ event.texts, FitsField text) →
    (other.commitBatch now processor (.live initial) batch events).1.map BatchOutcome.checkpoint =
      (ledger.commitBatch now processor (.live initial) batch events).1.map BatchOutcome.checkpoint
  rows : Store.SameTable .processors ledger.contents other.contents

/-- The operations of backfills are answered alike, up to the number of stale events of a batch, and
the rows of backfills are the same. -/
structure BackfillsAlike (ledger other : Ledger) : Prop where
  startOrResume : ∀ now name run,
    (other.startOrResume now name run).1 = (ledger.startOrResume now name run).1
  advanceBackfill : ∀ now name version time, (other.advanceBackfill now name version time).1 =
    (ledger.advanceBackfill now name version time).1
  backfill : ∀ name, other.backfill name = ledger.backfill name
  resolveRange : ∀ now processor id initial ending overwrite,
    (other.resolveRange now processor (.backfill id initial ending overwrite)).1 =
      (ledger.resolveRange now processor (.backfill id initial ending overwrite)).1
  commitBatch : ∀ now processor id initial ending overwrite batch events,
    (∀ event ∈ events, ∀ text ∈ event.texts, FitsField text) →
    (other.commitBatch now processor (.backfill id initial ending overwrite) batch
        events).1.map BatchOutcome.checkpoint =
      (ledger.commitBatch now processor (.backfill id initial ending overwrite) batch
        events).1.map BatchOutcome.checkpoint
  rows : Store.SameTable .backfills ledger.contents other.contents

theorem AgreesOn.liveAlike (h : ledger.AgreesOn .live other) : ledger.LiveAlike other where
  advance now processor version time := (h.advance now processor version time).eq
  resumeVersion processor initial := resumeVersion_congr (h.reads_processor processor) initial
  checkpoint processor := fetch_congr (h.reads_processor processor)
  resolveRange now processor initial := (h.resolveRange_live now processor initial).eq
  commitBatch now processor _ batch _ fits := (h.commitBatch now processor rfl batch
    fun event member => IdentityEvent.isOk_record_iff.2 (fits event member)).answer
  rows := h.progress

theorem AgreesOn.backfillsAlike (h : ledger.AgreesOn .backfill other) :
    ledger.BackfillsAlike other where
  startOrResume now name run := (h.startOrResume now name run).eq
  advanceBackfill now name version time := (h.advanceBackfill now name version time).eq
  backfill name := fetch_congr (h.reads_backfill name)
  resolveRange now processor id initial ending overwrite :=
    (h.resolveRange_backfill now processor id ⟨initial, ending, overwrite⟩).eq
  commitBatch now processor _ _ _ _ batch _ fits := (h.commitBatch now processor rfl batch
    fun event member => IdentityEvent.isOk_record_iff.2 (fits event member)).answer
  rows := h.progress

/-- After any calls over a store whose writes do not fail, live runs are answered as if the
operations of backfills and of testing runs had been left out, and backfills as if those of live and
of testing runs had. As this holds after the calls up to any moment, it holds of each call on the
way. The texts of events have to fit the field for their length, as all texts in memory do: an event
that is stale is not written, and one that is fresh is. -/
theorem noninterference (takes : ledger.backend.TakesAll) {calls : List (Timestamp × Call)}
    (fits : ∀ made ∈ calls, ∀ event ∈ made.2.events, ∀ text ∈ event.texts, FitsField text) :
    (ledger.performEach calls).LiveAlike (ledger.performEach (keptCalls .live calls)) ∧
      (ledger.performEach calls).BackfillsAlike
        (ledger.performEach (keptCalls .backfill calls)) := by
  have records : ∀ made ∈ calls, ∀ event ∈ made.2.events, event.record.isOk = true :=
    fun made member event inside => IdentityEvent.isOk_record_iff.2 (fits made member event inside)
  exact ⟨(AgreesOn.performEach (.refl takes) records).liveAlike,
    (AgreesOn.performEach (.refl takes) records).backfillsAlike⟩

end Ledger

/-! ### A live run beside a backfill and a testing run -/

namespace SharedStore

/-- A ledger in memory that has verified its chain. -/
def ledger : Ledger := { Ledger.fresh .inMemory .zero with verifiedChain := some 1 }

/-- A link, as it was read at some version. -/
def link (version : Version) : IdentityEvent := .link ⟨"0x1", "0xab", true, version⟩

/-- A backfill and a testing run commit batches that are ahead of the live run. -/
def calls : List (Timestamp × Call) :=
  [(1, .resolveRange "p" (.backfill "b" 0 none true)),
    (2, .commitBatch "p" (.backfill "b" 0 none true) ⟨0, 9, none⟩ [link 8]),
    (3, .advance "p" 3 none),
    (4, .commitBatch "p" (.testing 0 none) ⟨0, 12, none⟩ [link 11])]

/-- The next batch of the live run moves its row in any case; its event is stale only because of the
other runs. -/
theorem commitBatch_alike :
    ((ledger.performEach (Ledger.keptCalls .live calls)).commitBatch 5 "p" (.live 0) ⟨4, 6, none⟩
        [link 5]).1.map BatchOutcome.checkpoint =
      ((ledger.performEach calls).commitBatch 5 "p" (.live 0) ⟨4, 6, none⟩
        [link 5]).1.map BatchOutcome.checkpoint ∧
    ((ledger.performEach (Ledger.keptCalls .live calls)).commitBatch 5 "p" (.live 0) ⟨4, 6, none⟩
      [link 5]).1 = .ok ⟨.advanced, 1, 0⟩ ∧
    ((ledger.performEach calls).commitBatch 5 "p" (.live 0) ⟨4, 6, none⟩ [link 5]).1 =
      .ok ⟨.advanced, 0, 1⟩ := by
  have takes : ledger.backend.TakesAll := Backend.takesAll_of_home_none rfl rfl
  have fits : ∀ made ∈ calls, ∀ event ∈ made.2.events, ∀ text ∈ event.texts, FitsField text := by
    decide +kernel
  have alike := (Ledger.noninterference takes fits).1
  exact ⟨alike.commitBatch 5 "p" 0 ⟨4, 6, none⟩ [link 5] (by decide +kernel), by decide +kernel,
    by decide +kernel⟩

end SharedStore

end IngestLedger
