import IngestLedger.Proofs.Histories

/-!
# Backfills of different processors

The row and the settings of a backfill are kept under the name of its processor and its own, joined
by an underscore. Two backfills leave each other alone when these joined names differ; but the
underscore may also stand in the names themselves, and then two different backfills can share a
joined name, their row and their settings.

Main definitions:

* `SharesAlias`: when two different backfills have one joined name.
* `Call.IsOfBackfill`: the calls that a run in backfill mode makes.
* `Ledger.KeepsBackfill`: the row and the settings of a backfill stay.

Main statements:

* `backfillAlias_eq_iff`: when joined names are the same.
* `Ledger.runs_perform`: a call changes the settings of the backfill that it starts at most.
* `Life.keepsBackfill_iff`: a backfill leaves another one alone exactly when they share no joined
  name.
-/

namespace IngestLedger

/-! ### Joined names -/

/-- Two backfills with one joined name: a part between two underscores belongs to the processor of
the one and to the name of the other. -/
def SharesAlias (processor id other otherId : String) : Prop :=
  ∃ between, (other = processor ++ "_" ++ between ∧ id = between ++ "_" ++ otherId) ∨
    (processor = other ++ "_" ++ between ∧ otherId = between ++ "_" ++ id)

theorem toList_backfillAlias (processor id : String) :
    (backfillAlias processor id).toList = processor.toList ++ '_' :: id.toList := by
  simp [backfillAlias]

/-- What stands before the first of two separators, between them and after them. -/
theorem exists_between {α : Type} {separator : α} {front back front' back' : List α}
    (same : front ++ separator :: back = front' ++ separator :: back')
    (longer : front.length < front'.length) :
    ∃ between, front' = front ++ separator :: between ∧
      back = between ++ separator :: back' := by
  rcases List.append_eq_append_iff.1 same with ⟨part, whole, rest⟩ | ⟨part, whole, -⟩
  · cases part with
    | nil => simp [whole] at longer
    | cons head between =>
      obtain ⟨rfl, rfl⟩ := List.cons.inj rest
      exact ⟨between, whole, rfl⟩
  · rw [whole, List.length_append] at longer
    omega

/-- Two different backfills have the same joined name exactly when the underscore also stands in
their own names so. -/
theorem backfillAlias_eq_iff {processor id other otherId : String}
    (different : (processor, id) ≠ (other, otherId)) :
    backfillAlias processor id = backfillAlias other otherId ↔
      SharesAlias processor id other otherId := by
  constructor
  · intro same
    have letters := congrArg String.toList same
    rw [toList_backfillAlias, toList_backfillAlias] at letters
    rcases Nat.lt_trichotomy processor.toList.length other.toList.length with less | equal | more
    · obtain ⟨between, front, back⟩ := exists_between letters less
      refine ⟨String.ofList between, .inl ⟨?_, ?_⟩⟩
      · rw [← String.toList_inj]
        simpa using front
      · rw [← String.toList_inj]
        simpa using back
    · obtain ⟨front, back⟩ := List.append_inj letters equal
      have processors : processor = other := String.toList_inj.1 front
      have ids : id = otherId := String.toList_inj.1 (List.cons.inj back).2
      exact absurd (Prod.ext processors ids) different
    · obtain ⟨between, front, back⟩ := exists_between letters.symm more
      refine ⟨String.ofList between, .inr ⟨?_, ?_⟩⟩
      · rw [← String.toList_inj]
        simpa using front
      · rw [← String.toList_inj]
        simpa using back
  · rintro ⟨between, ⟨rfl, rfl⟩ | ⟨rfl, rfl⟩⟩
    · simp only [backfillAlias, String.append_assoc]
    · simp only [backfillAlias, String.append_assoc]

theorem nameable_backfillAlias {processor id : String} (hprocessor : Nameable processor)
    (hid : Nameable id) : Nameable (backfillAlias processor id) := by
  refine ⟨fun empty => ?_, fun nul => ?_⟩
  · have letters := toList_backfillAlias processor id
    rw [empty] at letters
    simp at letters
  · rw [toList_backfillAlias, List.mem_append, List.mem_cons] at nul
    rcases nul with inside | here | inside
    · exact hprocessor.2 inside
    · exact absurd here (by decide)
    · exact hid.2 inside

/-! ### What a backfill leaves alone -/

/-- The backfill that a call starts. -/
def Call.started? : Call → Option String
  | .startOrResume name _ => some name
  | .resolveRange processor (.backfill id ..) => some (backfillAlias processor id)
  | _ => none

/-- The calls that a run makes in the mode of a backfill. -/
inductive Call.IsOfBackfill (processor id : String) : Call → Prop
  | resolveRange (initial : Version) (ending : Option Version) (overwrite : Bool) :
    IsOfBackfill processor id (.resolveRange processor (.backfill id initial ending overwrite))
  | commitBatch (initial : Version) (ending : Option Version) (overwrite : Bool)
      (batch : BatchInfo) (events : List IdentityEvent) :
    IsOfBackfill processor id
      (.commitBatch processor (.backfill id initial ending overwrite) batch events)

namespace Call.IsOfBackfill

variable {processor id : String} {call : Call}

theorem started (h : call.IsOfBackfill processor id) {name : String}
    (other : backfillAlias processor id ≠ name) : call.started? ≠ some name := by
  cases h with
  | resolveRange initial ending overwrite => exact fun same => other (Option.some.inj same)
  | commitBatch initial ending overwrite batch events => exact nofun

theorem footprint (h : call.IsOfBackfill processor id) {name : String}
    (other : backfillAlias processor id ≠ name) : Key.backfill name ∉ call.footprint := by
  cases h with
  | resolveRange initial ending overwrite =>
    intro inside
    exact other (Key.backfill.inj (BackfillRun.eq_of_mem_keys inside)).symm
  | commitBatch initial ending overwrite batch events =>
    intro inside
    rcases List.mem_append.1 inside with here | here
    · exact other (Key.backfill.inj (List.mem_singleton.1 here)).symm
    · obtain ⟨event, -, written⟩ := List.mem_flatMap.1 here
      have table := event.table_mem_of_mem_keys written
      simp [Key.table, Table.identity] at table

end Call.IsOfBackfill

/-- Where a backfill that does not begin anew starts: after the progress in its row, unless that
lies before its initial version. -/
def BackfillRun.firstAfter (run : BackfillRun) (stored : Option BackfillRow) : Version :=
  match stored.bind BackfillRow.next? with
  | some next => if next > run.initial then next else run.initial
  | none => run.initial

namespace Ledger

variable {ledger : Ledger} {now : Timestamp} {name : String} {run : BackfillRun}

theorem runs_startOrResume_of_ne {other : String} (different : name ≠ other) :
    (ledger.startOrResume now name run).2.runs other = ledger.runs other := by
  rw [runs_startOrResume]
  split
  · exact if_neg different.symm
  · rfl

theorem runs_verifyChain (ledger : Ledger) (chain : ChainId) :
    (ledger.verifyChain chain).2.runs = ledger.runs := by
  have kept := (sameAround_transact ledger (planChain chain)).runs
  rcases verifyChain_cases ledger chain with ⟨e, -, verified⟩ | ⟨-, verified⟩ |
    ⟨stored, -, -, verified⟩ | ⟨after, -, recorded, verified⟩ | ⟨e, after, -, recorded, verified⟩
  · rw [verified]
  · rw [verified]
  · rw [verified]
  · rw [recorded] at kept
    rw [verified, kept]
  · rw [recorded] at kept
    rw [verified, kept]

/-- A call changes the settings of the backfill that it starts at most. -/
theorem runs_perform (ledger : Ledger) (now : Timestamp) {call : Call}
    (other : call.started? ≠ some name) :
    (ledger.perform now call).2.runs name = ledger.runs name := by
  cases call with
  | verifyChain chain => exact congrFun (runs_verifyChain ledger chain) name
  | startOrResume started run =>
    exact runs_startOrResume_of_ne fun same => other (congrArg some same)
  | resolveRange processor mode =>
    show (ledger.resolveRange now processor mode).2.runs name = ledger.runs name
    rw [resolveRange_snd]
    cases mode with
    | live initial => rfl
    | backfill id initial ending overwrite =>
      exact runs_startOrResume_of_ne fun same => other (congrArg some same)
    | testing start ending => rfl
  | advance processor version time => exact congrFun (sameAround_transact ledger _).runs name
  | advanceBackfill started version time =>
    exact congrFun (sameAround_transact ledger _).runs name
  | apply event => exact congrFun (sameAround_transact ledger _).runs name
  | commitBatch processor mode batch events =>
    exact congrFun (sameAround_transact ledger _).runs name

/-- The row of a backfill and the settings it goes by stay as they are. -/
def KeepsBackfill (before after : Ledger) (name : String) : Prop :=
  after.runs name = before.runs name ∧
    after.contents.value? (.backfill name) = before.contents.value? (.backfill name)

/-- A backfill leaves those under other joined names alone. -/
theorem keepsBackfill_of_ne (ledger : Ledger) (now : Timestamp) {processor id : String}
    {call : Call} (h : call.IsOfBackfill processor id) (other : backfillAlias processor id ≠ name) :
    ledger.KeepsBackfill (ledger.perform now call).2 name :=
  ⟨runs_perform ledger now (h.started other), value?_perform ledger now (h.footprint other)⟩

/-! ### Starting a backfill -/

/-- Starting a backfill that does not begin anew writes nothing. -/
theorem planStart_of_keeps (now : Timestamp) (keeps : run.overwrite = false) {bytes : Bytes}
    (hkey : (Key.backfill name).bytes = .ok bytes) {stored : Option BackfillRow}
    (read : ledger.readRow BackfillRow bytes = .ok stored) : ∃ resumed,
      ledger.planStart now name run =
        .ok (⟨name, run.firstAfter stored, run.ending, resumed⟩, .nothing) := by
  have begun : ¬ run.overwrite = true := by rw [keeps]; exact Bool.false_ne_true
  simp only [planStart, keyBytes_eq_ok_iff.2 hkey, read, bind, Except.bind, if_neg begun,
    BackfillRun.firstAfter]
  cases stored.bind BackfillRow.next? with
  | none => exact ⟨false, rfl⟩
  | some next =>
    by_cases beyond : next > run.initial
    · exact ⟨true, by simp only [if_pos beyond]; rfl⟩
    · exact ⟨false, by simp only [if_neg beyond]; rfl⟩

/-- A backfill that does not begin anew starts where its row tells, and writes nothing. -/
theorem startOrResume_ok_of_keeps (keeps : run.overwrite = false) {plan : BackfillPlan}
    {after : Ledger} (answered : ledger.startOrResume now name run = (.ok plan, after)) :
    plan.start = run.firstAfter (ledger.contents.row? BackfillRow (.backfill name)) ∧
      plan.ending = run.ending ∧ after.contents = ledger.contents ∧
      after.runs name = some run := by
  rcases startOrResume_cases ledger now name run with
    ⟨plan', after', transacted, started⟩ | ⟨e, after', -, started⟩
  · obtain ⟨changes, planned, contents, -⟩ := transact_ok transacted
    obtain ⟨bytes, hkey, reading⟩ := bind_eq_ok_iff.1 planned
    obtain ⟨stored, read, -⟩ := bind_eq_ok_iff.1 reading
    rw [keyBytes_eq_ok_iff] at hkey
    obtain ⟨resumed, same⟩ := planStart_of_keeps now keeps hkey read
    obtain ⟨answer, rfl⟩ := Prod.mk.inj (started.symm.trans answered)
    obtain rfl := Except.ok.inj answer
    rw [planned] at same
    obtain ⟨rfl, rfl⟩ := Prod.mk.inj (Except.ok.inj same)
    rw [row?_of_readRow hkey read]
    exact ⟨rfl, rfl, contents, if_pos rfl⟩
  · cases (Prod.mk.inj (started.symm.trans answered)).1

/-- A backfill that does not begin anew can be started over any store that was written by calls,
and goes by the settings it was started with from then on. -/
theorem exists_startOrResume (now : Timestamp) (wellFormed : ledger.contents.IsWellFormed)
    (reads : ledger.backend.faults.get = none) (nameable : Nameable name)
    (keeps : run.overwrite = false) :
    ∃ plan, (ledger.startOrResume now name run).1 = .ok plan ∧
      (ledger.startOrResume now name run).2.runs name = some run := by
  obtain ⟨bytes, hkey⟩ : ∃ bytes, (Key.backfill name).bytes = .ok bytes :=
    Key.exists_bytes_iff.2 (by simpa [Key.components] using nameable)
  obtain ⟨stored, read⟩ : ∃ stored, ledger.readRow BackfillRow bytes = .ok stored := by
    refine exists_readRow reads hkey fun value found => ?_
    obtain ⟨row, -, encoded⟩ := wellFormed _ value found
    exact ⟨row, encoded⟩
  obtain ⟨resumed, planned⟩ := planStart_of_keeps now keeps hkey read
  obtain ⟨after, answered⟩ : ∃ after, ledger.transact (ledger.planStart now name run) =
      (.ok ⟨name, run.firstAfter stored, run.ending, resumed⟩, after) :=
    transact_ok_of_planned planned (.inl rfl)
  refine ⟨⟨name, run.firstAfter stored, run.ending, resumed⟩, ?_, ?_⟩
  · simp only [startOrResume, answered]
  · simp only [startOrResume, answered]
    exact if_pos rfl

/-- Starting a backfill once more with other settings changes them. -/
theorem exists_not_keepsBackfill (wellFormed : ledger.contents.IsWellFormed)
    (reads : ledger.backend.faults.get = none) {processor id : String}
    (nameable : Nameable (backfillAlias processor id)) (now : Timestamp) :
    ∃ call, Call.IsOfBackfill processor id call ∧
      ¬ ledger.KeepsBackfill (ledger.perform now call).2 (backfillAlias processor id) := by
  obtain ⟨ending, other⟩ : ∃ ending,
      ledger.runs (backfillAlias processor id) ≠ some ⟨0, ending, false⟩ := by
    by_cases open_ended : ledger.runs (backfillAlias processor id) = some ⟨0, none, false⟩
    · refine ⟨some 0, ?_⟩
      rw [open_ended]
      decide
    · exact ⟨none, open_ended⟩
  refine ⟨.resolveRange processor (.backfill id 0 ending false), .resolveRange .., ?_⟩
  rintro ⟨kept, -⟩
  obtain ⟨plan, -, started⟩ : ∃ plan,
      (ledger.startOrResume now (backfillAlias processor id) ⟨0, ending, false⟩).1 = .ok plan ∧
      (ledger.startOrResume now (backfillAlias processor id) ⟨0, ending, false⟩).2.runs
        (backfillAlias processor id) = some ⟨0, ending, false⟩ :=
    exists_startOrResume now wellFormed reads nameable rfl
  have settled : (ledger.resolveRange now processor (.backfill id 0 ending false)).2.runs
      (backfillAlias processor id) = some ⟨0, ending, false⟩ := by
    rw [resolveRange_snd]
    exact started
  exact other (kept.symm.trans settled)

end Ledger

/-- In every life, the calls of a backfill leave the row and the settings of a different one alone
exactly when the two share no joined name. -/
theorem Life.keepsBackfill_iff (life : Life) (reads : life.ledger.backend.faults.get = none)
    {processor id other otherId : String} (hprocessor : Nameable processor) (hid : Nameable id)
    (different : (processor, id) ≠ (other, otherId)) :
    (∀ now call, Call.IsOfBackfill processor id call →
      life.ledger.KeepsBackfill (life.ledger.perform now call).2 (backfillAlias other otherId)) ↔
        ¬ SharesAlias processor id other otherId := by
  rw [← backfillAlias_eq_iff different]
  constructor
  · intro isolated same
    obtain ⟨call, ofBackfill, changed⟩ := Ledger.exists_not_keepsBackfill life.isWellFormed reads
      (nameable_backfillAlias hprocessor hid) 0
    exact changed (same ▸ isolated 0 call ofBackfill)
  · exact fun apart now call ofBackfill =>
      Ledger.keepsBackfill_of_ne life.ledger now ofBackfill apart

/-! ### Two backfills with one joined name -/

namespace SharedName

/-- A ledger in which the backfill `c` of the processor `a_b` was started. -/
def life : Life := .inMemory
  [.call 0 (.verifyChain 1), .call 0 (.resolveRange "a_b" (.backfill "c" 0 (some 100) false))]

theorem sharesAlias : SharesAlias "a" "b_c" "a_b" "c" :=
  ⟨"b", .inl ⟨by decide +kernel, by decide +kernel⟩⟩

theorem not_sharesAlias : ¬ SharesAlias "a" "d" "a_b" "c" :=
  fun shares => absurd ((backfillAlias_eq_iff (by decide)).2 shares) (by decide +kernel)

/-- The backfill `b_c` of the processor `a` does not leave that one alone, and the backfill `d` of
the same processor does. -/
theorem keepsBackfill_life :
    (∃ now call, Call.IsOfBackfill "a" "b_c" call ∧
      ¬ life.ledger.KeepsBackfill (life.ledger.perform now call).2 (backfillAlias "a_b" "c")) ∧
    ∀ now call, Call.IsOfBackfill "a" "d" call →
      life.ledger.KeepsBackfill (life.ledger.perform now call).2 (backfillAlias "a_b" "c") := by
  have reads : life.ledger.backend.faults.get = none := by decide +kernel
  have shared := life.keepsBackfill_iff reads (by decide : Nameable "a")
    (by decide : Nameable "b_c") (by decide : ("a", "b_c") ≠ ("a_b", "c"))
  have apart := life.keepsBackfill_iff reads (by decide : Nameable "a")
    (by decide : Nameable "d") (by decide : ("a", "d") ≠ ("a_b", "c"))
  refine ⟨?_, apart.2 not_sharesAlias⟩
  by_contra none
  refine shared.1 (fun now call ofBackfill => ?_) sharesAlias
  by_contra changed
  exact none ⟨now, call, ofBackfill, changed⟩

/-- What the backfill `b_c` of the processor `a` is started with, the backfill `c` of the processor
`a_b` goes by from then on: its next batch is refused. -/
theorem settings_taken_over : life.ledger.verifiedChain.isSome ∧
    (Nameable "a" ∧ Nameable "b_c" ∧ Nameable "a_b" ∧ Nameable "c") ∧
    ("a", "b_c") ≠ ("a_b", "c") ∧
    life.ledger.runs (backfillAlias "a_b" "c") = some ⟨0, some 100, false⟩ ∧
    ∃ range after, life.ledger.resolveRange 0 "a" (.backfill "b_c" 0 (some 10) false) =
        (.ok range, after) ∧
      after.runs (backfillAlias "a_b" "c") = some ⟨0, some 10, false⟩ ∧
      (life.ledger.commitBatch 0 "a_b" (.backfill "c" 0 (some 100) false) ⟨0, 50, none⟩ []).1 =
        .ok ⟨.advanced, 0, 0⟩ ∧
      (after.commitBatch 0 "a_b" (.backfill "c" 0 (some 100) false) ⟨0, 50, none⟩ []).1 =
        .error (.pastEndingVersion "a_b_c" 50 10) := by
  have answer : (life.ledger.resolveRange 0 "a" (.backfill "b_c" 0 (some 10) false)).1 =
      .ok (.between 0 10) := by decide +kernel
  refine ⟨by decide +kernel, by decide, by decide, by decide +kernel, _, _, Prod.ext answer rfl,
    by decide +kernel, by decide +kernel, by decide +kernel⟩

end SharedName

end IngestLedger
