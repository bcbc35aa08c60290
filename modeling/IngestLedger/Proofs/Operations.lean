import IngestLedger.Ledger.Call
import IngestLedger.Proofs.Writing

/-!
# What operations come to

Every operation has few outcomes. They are listed here once, each with the conditions under which
it occurs, so that what holds of an operation can be shown outcome by outcome.

Main statements:

* `Ledger.planAdvance_ok`, `Ledger.planBackfillAdvance_ok`: progress that is moved or passed over.
* `Ledger.planLayout_ok`, `Ledger.planStart_ok`: a store that is opened, a backfill that is started.
* `Ledger.planCheckpoint_cases`, `Ledger.planBatch_eq_ok_iff`: a batch that is committed.
* `Ledger.verifyChain_cases`, `Ledger.startOrResume_cases`: the outcomes of verifying a chain and of
  starting a backfill.
* `Ledger.resolveRange_live`, `Ledger.resolveRange_backfill`: the range of a mode.
* `Ledger.planAdvance_congr`, `Ledger.planStart_congr`, `Ledger.planBackfillAdvance_congr`: what an
  operation goes by.
-/

namespace IngestLedger

namespace Ledger

variable {ledger : Ledger} {now : Timestamp} {changes : Changes}

/-- Opening finds the marker of the layout, or marks it where there is none. -/
theorem planLayout_ok {answer : Unit} (planned : ledger.planLayout = .ok (answer, changes)) :
    ∃ stored, ledger.readRow LayoutRow Key.layoutBytes = .ok stored ∧
      (stored = some LayoutRow.current ∧ changes = .nothing ∨
        stored = none ∧ ∃ value, Record.encode LayoutRow.current = .ok value ∧
          changes = ⟨[(Key.layoutBytes, value)], []⟩) := by
  obtain ⟨stored, read, planned⟩ := bind_eq_ok_iff.1 planned
  refine ⟨stored, read, ?_⟩
  cases stored with
  | some marker =>
    by_cases current : marker = LayoutRow.current
    · simp only [if_pos current] at planned
      exact .inl ⟨by rw [current], (Prod.mk.inj (Except.ok.inj planned)).2.symm⟩
    · simp only [if_neg current] at planned
      cases planned
  | none =>
    obtain ⟨value, encoded, planned⟩ := bind_eq_ok_iff.1 planned
    exact .inr ⟨rfl, value, encoded, (Prod.mk.inj (Except.ok.inj planned)).2.symm⟩

/-! ### Moving progress -/

/-- A version is stale, or it lies beyond the progress that there is. -/
theorem any_le_or_forall_lt (progress : Option Version) (version : Version) :
    (∃ last, progress = some last ∧ version ≤ last) ∧
        (progress.any fun last => version ≤ last) = true ∨
      (∀ last, progress = some last → last < version) ∧
        ¬ (progress.any fun last => version ≤ last) = true := by
  cases progress with
  | none => exact .inr ⟨nofun, Bool.false_ne_true⟩
  | some last =>
    rcases UInt64.lt_or_le last version with beyond | stale
    · refine .inr ⟨fun other same => Option.some.inj same ▸ beyond, fun le => ?_⟩
      exact UInt64.not_le.2 beyond (of_decide_eq_true le)
    · exact .inl ⟨⟨last, rfl, stale⟩, decide_eq_true stale⟩

/-- Moving the row of a processor: a stale version is passed over, and one beyond the progress that
there is becomes the last one. -/
theorem planAdvance_ok {processor : String} {version : Version} {time : Option Timestamp}
    {outcome : AdvanceOutcome}
    (planned : ledger.planAdvance now processor version time = .ok (outcome, changes)) :
    ∃ bytes stored, keyBytes (.processor processor) = .ok bytes ∧
      ledger.readRow ProcessorRow bytes = .ok stored ∧
      ((∃ last, stored.map ProcessorRow.lastVersion = some last ∧ version ≤ last) ∧
          outcome = .stale ∧ changes = .count (.staleIgnored .processors) ∨
        (∀ last, stored.map ProcessorRow.lastVersion = some last → last < version) ∧
          outcome = .advanced ∧ ∃ value,
            Record.encode (ProcessorRow.mk processor version now time) = .ok value ∧
            changes = ⟨[(bytes, value)], [.advanced .live]⟩) := by
  obtain ⟨bytes, hkey, planned⟩ := bind_eq_ok_iff.1 planned
  obtain ⟨stored, read, planned⟩ := bind_eq_ok_iff.1 planned
  refine ⟨bytes, stored, hkey, read, ?_⟩
  have progress := any_le_or_forall_lt (stored.map ProcessorRow.lastVersion) version
  rw [Option.any_map] at progress
  rcases progress with ⟨known, stale⟩ | ⟨beyond, fresh⟩
  · rw [if_pos stale] at planned
    obtain ⟨rfl, rfl⟩ := Prod.mk.inj (Except.ok.inj planned)
    exact .inl ⟨known, rfl, rfl⟩
  · rw [if_neg fresh] at planned
    obtain ⟨value, encoded, planned⟩ := bind_eq_ok_iff.1 planned
    obtain ⟨rfl, rfl⟩ := Prod.mk.inj (Except.ok.inj planned)
    exact .inr ⟨beyond, rfl, value, encoded, rfl⟩

/-- Moving the row of a backfill, which has to be started, up to its end at most. -/
theorem planBackfillAdvance_ok {name : String} {version : Version} {time : Option Timestamp}
    {outcome : AdvanceOutcome}
    (planned : ledger.planBackfillAdvance now name version time = .ok (outcome, changes)) :
    ∃ bytes stored run, keyBytes (.backfill name) = .ok bytes ∧
      ledger.readRow BackfillRow bytes = .ok stored ∧
      ledger.backfillSettings name stored = .ok run ∧ checkEnd name version run.ending = .ok () ∧
      ((∃ last, stored.bind BackfillRow.lastVersion = some last ∧ version ≤ last) ∧
          outcome = .stale ∧ changes = .count (.staleIgnored .backfills) ∨
        (∀ last, stored.bind BackfillRow.lastVersion = some last → last < version) ∧
          outcome = .advanced ∧ ∃ value,
            Record.encode (movedBackfillRow now name run version time) = .ok value ∧
            changes = ⟨[(bytes, value)], .advanced .backfill ::
              if (movedBackfillRow now name run version time).isComplete &&
                  !stored.any BackfillRow.isComplete then [.backfillCompleted] else []⟩) := by
  obtain ⟨bytes, hkey, planned⟩ := bind_eq_ok_iff.1 planned
  obtain ⟨stored, read, planned⟩ := bind_eq_ok_iff.1 planned
  obtain ⟨run, settings, planned⟩ := bind_eq_ok_iff.1 planned
  obtain ⟨_, inside, planned⟩ := bind_eq_ok_iff.1 planned
  refine ⟨bytes, stored, run, hkey, read, settings, inside, ?_⟩
  rcases any_le_or_forall_lt (stored.bind BackfillRow.lastVersion) version with
    ⟨known, stale⟩ | ⟨beyond, fresh⟩
  · rw [if_pos stale] at planned
    obtain ⟨rfl, rfl⟩ := Prod.mk.inj (Except.ok.inj planned)
    exact .inl ⟨known, rfl, rfl⟩
  · rw [if_neg fresh] at planned
    obtain ⟨value, encoded, planned⟩ := bind_eq_ok_iff.1 planned
    obtain ⟨rfl, rfl⟩ := Prod.mk.inj (Except.ok.inj planned)
    exact .inr ⟨beyond, rfl, value, encoded, rfl⟩

/-- Starting a backfill: with `overwrite` its row begins anew, which needs a verified chain, and
otherwise nothing changes. -/
theorem planStart_ok {name : String} {run : BackfillRun} {plan : BackfillPlan}
    (planned : ledger.planStart now name run = .ok (plan, changes)) :
    ∃ bytes stored, keyBytes (.backfill name) = .ok bytes ∧
      ledger.readRow BackfillRow bytes = .ok stored ∧
      ((run.overwrite = true ∧ ledger.verifiedChain.isSome = true ∧ ∃ value,
          Record.encode (newBackfillRow now name run) = .ok value ∧
          changes = ⟨[(bytes, value)], []⟩) ∨
        run.overwrite = false ∧ changes = .nothing) := by
  obtain ⟨bytes, hkey, planned⟩ := bind_eq_ok_iff.1 planned
  obtain ⟨stored, read, planned⟩ := bind_eq_ok_iff.1 planned
  refine ⟨bytes, stored, hkey, read, ?_⟩
  cases overwrite : run.overwrite with
  | true =>
    rw [if_pos overwrite] at planned
    obtain ⟨chain, verified, planned⟩ := bind_eq_ok_iff.1 planned
    obtain ⟨value, encoded, planned⟩ := bind_eq_ok_iff.1 planned
    obtain ⟨-, rfl⟩ := Prod.mk.inj (Except.ok.inj planned)
    rw [ensureVerified_eq_ok_iff] at verified
    exact .inl ⟨rfl, by rw [verified]; rfl, value, encoded, rfl⟩
  | false =>
    refine .inr ⟨rfl, ?_⟩
    rw [if_neg (by rw [overwrite]; exact Bool.false_ne_true)] at planned
    split at planned
    · split at planned
      · exact (Prod.mk.inj (Except.ok.inj planned)).2.symm
      · exact (Prod.mk.inj (Except.ok.inj planned)).2.symm
    · exact (Prod.mk.inj (Except.ok.inj planned)).2.symm

/-- The end of a batch moves the row of its mode, and without a row nothing changes. -/
theorem planCheckpoint_cases {processor : String} {batch : BatchInfo} {mode : RunMode}
    {outcome : CheckpointOutcome}
    (planned : ledger.planCheckpoint now processor batch mode = .ok (outcome, changes)) :
    (∃ initial moved, mode = .live initial ∧
      ledger.planAdvance now processor batch.last batch.timestamp = .ok (moved, changes) ∧
      outcome = moved.forBatch) ∨
    (∃ id initial ending overwrite moved, mode = .backfill id initial ending overwrite ∧
      ledger.planBackfillAdvance now (backfillAlias processor id) batch.last batch.timestamp =
        .ok (moved, changes) ∧
      outcome = moved.forBatch) ∨
    ∃ start ending, mode = .testing start ending ∧ outcome = .skipped ∧ changes = .nothing := by
  cases mode with
  | live initial =>
    obtain ⟨⟨moved, rest⟩, advancing, planned⟩ := bind_eq_ok_iff.1 planned
    obtain ⟨rfl, rfl⟩ := Prod.mk.inj (Except.ok.inj planned)
    exact .inl ⟨initial, moved, rfl, advancing, rfl⟩
  | backfill id initial ending overwrite =>
    obtain ⟨⟨moved, rest⟩, advancing, planned⟩ := bind_eq_ok_iff.1 planned
    obtain ⟨rfl, rfl⟩ := Prod.mk.inj (Except.ok.inj planned)
    exact .inr (.inl ⟨id, initial, ending, overwrite, moved, rfl, advancing, rfl⟩)
  | testing start ending =>
    obtain ⟨rfl, rfl⟩ := Prod.mk.inj (Except.ok.inj planned)
    exact .inr (.inr ⟨start, ending, rfl, rfl, rfl⟩)

/-- Committing a batch: the progress of its mode and then its events, one for each row, are planned
against the store as it was. -/
theorem planBatch_eq_ok_iff {processor : String} {mode : RunMode} {batch : BatchInfo}
    {events : List IdentityEvent} {outcome : BatchOutcome} :
    ledger.planBatch now processor mode batch events = .ok (outcome, changes) ↔
      ∃ progress rest,
        ledger.planCheckpoint now processor batch mode = .ok (outcome.checkpoint, progress) ∧
        ledger.planEvents (coalesce events) = .ok (outcome.events, rest) ∧
        changes = progress ++ rest := by
  constructor
  · intro planned
    obtain ⟨⟨checkpoint, progress⟩, hprogress, planned⟩ := bind_eq_ok_iff.1 planned
    obtain ⟨⟨tally, rest⟩, hrest, planned⟩ := bind_eq_ok_iff.1 planned
    obtain ⟨rfl, rfl⟩ := Prod.mk.inj (Except.ok.inj planned)
    exact ⟨progress, rest, hprogress, hrest, rfl⟩
  · rintro ⟨progress, rest, hprogress, hrest, rfl⟩
    exact bind_eq_ok_iff.2 ⟨_, hprogress, bind_eq_ok_iff.2 ⟨_, hrest, rfl⟩⟩

/-! ### Chains and ranges -/

/-- What verifying a chain comes to: the store is not read, or it belongs to this chain or another
one, or the chain is recorded in it, unless it does not take the row. -/
theorem verifyChain_cases (ledger : Ledger) (chain : ChainId) :
    (∃ e, ledger.chainId = .error e ∧ ledger.verifyChain chain = (.error e, ledger)) ∨
    (ledger.chainId = .ok (some chain) ∧ ledger.verifyChain chain = (.ok (), { ledger with
      verifiedChain := some chain
      counters := ledger.counters.add [.chainChecked .verified] })) ∨
    (∃ stored, ledger.chainId = .ok (some stored) ∧ stored ≠ chain ∧
      ledger.verifyChain chain = (.error (.chainMismatch stored chain),
        { ledger with counters := ledger.counters.add [.chainChecked .mismatch] })) ∨
    (∃ after, ledger.chainId = .ok none ∧ ledger.transact (planChain chain) = (.ok (), after) ∧
      ledger.verifyChain chain = (.ok (), { after with verifiedChain := some chain })) ∨
    ∃ e after, ledger.chainId = .ok none ∧ ledger.transact (planChain chain) = (.error e, after) ∧
      ledger.verifyChain chain = (.error e, after) := by
  unfold verifyChain
  cases read : ledger.chainId with
  | error e => exact .inl ⟨e, rfl, rfl⟩
  | ok found =>
    cases found with
    | some stored =>
      by_cases same : stored = chain
      · subst same
        exact .inr (.inl ⟨rfl, if_pos rfl⟩)
      · exact .inr (.inr (.inl ⟨stored, rfl, same, if_neg same⟩))
    | none =>
      cases recorded : ledger.transact (planChain chain) with
      | mk answer after =>
        cases answer with
        | ok _ => exact .inr (.inr (.inr (.inl ⟨after, rfl, rfl, rfl⟩)))
        | error e => exact .inr (.inr (.inr (.inr ⟨e, after, rfl, rfl, rfl⟩)))

/-- What starting a backfill comes to: its settings are remembered once its row is as planned. -/
theorem startOrResume_cases (ledger : Ledger) (now : Timestamp) (name : String)
    (run : BackfillRun) :
    (∃ plan after, ledger.transact (ledger.planStart now name run) = (.ok plan, after) ∧
      ledger.startOrResume now name run = (.ok plan, after.register name run)) ∨
    ∃ e after, ledger.transact (ledger.planStart now name run) = (.error e, after) ∧
      ledger.startOrResume now name run = (.error e, after) := by
  unfold startOrResume
  cases ledger.transact (ledger.planStart now name run) with
  | mk answer after =>
    cases answer with
    | ok plan => exact .inl ⟨plan, after, rfl, rfl⟩
    | error e => exact .inr ⟨e, after, rfl, rfl⟩

theorem resolveRange_live (ledger : Ledger) (now : Timestamp) (processor : String)
    (initial : Version) : ledger.resolveRange now processor (.live initial) =
      ((ledger.resumeVersion processor initial).map .onward, ledger) := by
  rw [resolveRange]
  cases ledger.resumeVersion processor initial <;> rfl

theorem resolveRange_backfill (ledger : Ledger) (now : Timestamp) (processor id : String)
    (run : BackfillRun) :
    ledger.resolveRange now processor (.backfill id run.initial run.ending run.overwrite) =
      ((ledger.startOrResume now (backfillAlias processor id) run).1.map BackfillPlan.range,
        (ledger.startOrResume now (backfillAlias processor id) run).2) := by
  rw [resolveRange]
  rcases startOrResume_cases ledger now (backfillAlias processor id) run with
    ⟨plan, after, -, started⟩ | ⟨e, after, -, started⟩
  · rw [started]
    rfl
  · rw [started]
    rfl

/-- The answer to verifying a chain, by the chain that is read. -/
theorem fst_verifyChain (ledger : Ledger) (chain : ChainId) :
    (ledger.verifyChain chain).1 =
      match ledger.chainId with
      | .error e => .error e
      | .ok (some stored) =>
        if stored = chain then .ok () else .error (.chainMismatch stored chain)
      | .ok none => (ledger.transact (planChain chain)).1 := by
  rcases verifyChain_cases ledger chain with ⟨e, read, verified⟩ | ⟨read, verified⟩ |
    ⟨stored, read, different, verified⟩ | ⟨after, read, recorded, verified⟩ |
    ⟨e, after, read, recorded, verified⟩
  · rw [verified, read]
  · rw [verified, read]
    exact (if_pos rfl).symm
  · rw [verified, read]
    exact (if_neg different).symm
  · rw [verified, read, recorded]
  · rw [verified, read, recorded]

/-- Only where no chain is recorded, verifying one touches the store. -/
theorem backend_verifyChain (ledger : Ledger) (chain : ChainId) :
    (ledger.verifyChain chain).2.backend =
      match ledger.chainId with
      | .ok none => (ledger.transact (planChain chain)).2.backend
      | _ => ledger.backend := by
  rcases verifyChain_cases ledger chain with ⟨e, read, verified⟩ | ⟨read, verified⟩ |
    ⟨stored, read, -, verified⟩ | ⟨after, read, recorded, verified⟩ |
    ⟨e, after, read, recorded, verified⟩
  · rw [verified, read]
  · rw [verified, read]
  · rw [verified, read]
  · rw [verified, read, recorded]
  · rw [verified, read, recorded]

/-- The chain that is verified when verifying it is answered, and no other. -/
theorem verifiedChain_verifyChain (ledger : Ledger) (chain : ChainId) :
    (ledger.verifyChain chain).2.verifiedChain =
      if (ledger.verifyChain chain).1.isOk then some chain else ledger.verifiedChain := by
  rcases verifyChain_cases ledger chain with ⟨e, -, verified⟩ | ⟨-, verified⟩ |
    ⟨stored, -, -, verified⟩ | ⟨after, -, recorded, verified⟩ | ⟨e, after, -, recorded, verified⟩
  · rw [verified]
    rfl
  · rw [verified]
    rfl
  · rw [verified]
    rfl
  · rw [verified]
    rfl
  · rw [verified]
    exact (sameAround_of_transact recorded).verifiedChain

theorem backend_startOrResume (ledger : Ledger) (now : Timestamp) (name : String)
    (run : BackfillRun) : (ledger.startOrResume now name run).2.backend =
      (ledger.transact (ledger.planStart now name run)).2.backend := by
  rcases startOrResume_cases ledger now name run with
    ⟨plan, after, planned, started⟩ | ⟨e, after, planned, started⟩
  · rw [started, planned]
    rfl
  · rw [started, planned]

theorem fst_startOrResume (ledger : Ledger) (now : Timestamp) (name : String)
    (run : BackfillRun) : (ledger.startOrResume now name run).1 =
      (ledger.transact (ledger.planStart now name run)).1 := by
  rcases startOrResume_cases ledger now name run with
    ⟨plan, after, planned, started⟩ | ⟨e, after, planned, started⟩
  · rw [started, planned]
  · rw [started, planned]

/-- A backfill that was started is remembered, and nothing else about backfills changes. -/
theorem runs_startOrResume (ledger : Ledger) (now : Timestamp) (name : String)
    (run : BackfillRun) : (ledger.startOrResume now name run).2.runs =
      if (ledger.startOrResume now name run).1.isOk then
        fun other => if other = name then some run else ledger.runs other
      else ledger.runs := by
  rcases startOrResume_cases ledger now name run with
    ⟨plan, after, planned, started⟩ | ⟨e, after, planned, started⟩
  · have kept := (sameAround_of_transact planned).runs
    rw [started]
    simp only [register, kept]
    rfl
  · rw [started]
    exact (sameAround_of_transact planned).runs

theorem verifiedChain_startOrResume (ledger : Ledger) (now : Timestamp) (name : String)
    (run : BackfillRun) :
    (ledger.startOrResume now name run).2.verifiedChain = ledger.verifiedChain := by
  rcases startOrResume_cases ledger now name run with
    ⟨plan, after, planned, started⟩ | ⟨e, after, planned, started⟩
  · rw [started]
    exact (sameAround_of_transact planned).verifiedChain
  · rw [started]
    exact (sameAround_of_transact planned).verifiedChain

/-- Resolving a range does nothing to a ledger but start a backfill. -/
theorem resolveRange_snd (ledger : Ledger) (now : Timestamp) (processor : String)
    (mode : RunMode) : (ledger.resolveRange now processor mode).2 =
      match mode with
      | .backfill id initial ending overwrite =>
        (ledger.startOrResume now (backfillAlias processor id) ⟨initial, ending, overwrite⟩).2
      | _ => ledger := by
  cases mode with
  | live initial => rw [resolveRange_live]
  | backfill id initial ending overwrite =>
    have resolved := resolveRange_backfill ledger now processor id ⟨initial, ending, overwrite⟩
    exact congrArg Prod.snd resolved
  | testing start ending => rfl

/-! ### What plans go by -/

section Alike

variable {other : Ledger}

/-- Two ledgers read the same row of a key, or fail alike. -/
def ReadsAlike (α : Type) [Row α] (ledger other : Ledger) (key : Key) : Prop :=
  ∀ bytes, keyBytes key = .ok bytes → other.readRow α bytes = ledger.readRow α bytes

theorem readsAlike_of_backend_eq {α : Type} [Row α] (same : other.backend = ledger.backend)
    (key : Key) : ReadsAlike α ledger other key := by
  intro bytes _
  simp only [readRow, same]

theorem ensureVerified_congr (same : other.verifiedChain = ledger.verifiedChain) :
    other.ensureVerified = ledger.ensureVerified := by
  simp only [ensureVerified, same]

theorem fetch_congr {α : Type} [Row α] {key : Key} (alike : ReadsAlike α ledger other key) :
    other.fetch α key = ledger.fetch α key :=
  bind_congr_of_ok alike

/-- Where a live run starts depends on the row of its processor only. -/
theorem resumeVersion_congr {processor : String}
    (alike : ReadsAlike ProcessorRow ledger other (.processor processor)) (initial : Version) :
    other.resumeVersion processor initial = ledger.resumeVersion processor initial := by
  simp only [resumeVersion, checkpoint, fetch_congr alike]

theorem planAdvance_congr {processor : String}
    (alike : ReadsAlike ProcessorRow ledger other (.processor processor)) (now : Timestamp)
    (version : Version) (time : Option Timestamp) :
    other.planAdvance now processor version time =
      ledger.planAdvance now processor version time := by
  refine bind_congr_of_ok fun bytes hkey => ?_
  rw [alike bytes hkey]

/-- Starting a backfill depends on its row only, and with `overwrite` on the verified chain. -/
theorem planStart_congr {name : String}
    (alike : ReadsAlike BackfillRow ledger other (.backfill name))
    (verified : other.verifiedChain = ledger.verifiedChain) (now : Timestamp) (run : BackfillRun) :
    other.planStart now name run = ledger.planStart now name run := by
  refine bind_congr_of_ok fun bytes hkey => ?_
  rw [alike bytes hkey, ensureVerified_congr verified]

/-- Moving the row of a backfill depends on the row and on the settings only. -/
theorem planBackfillAdvance_congr {name : String}
    (alike : ReadsAlike BackfillRow ledger other (.backfill name))
    (settings : ∀ bytes stored, keyBytes (.backfill name) = .ok bytes →
      ledger.readRow BackfillRow bytes = .ok stored →
      other.backfillSettings name stored = ledger.backfillSettings name stored)
    (now : Timestamp) (version : Version) (time : Option Timestamp) :
    other.planBackfillAdvance now name version time =
      ledger.planBackfillAdvance now name version time := by
  refine bind_congr_of_ok fun bytes hkey => ?_
  rw [alike bytes hkey]
  refine bind_congr_of_ok fun stored read => ?_
  rw [settings bytes stored hkey read]

theorem chainId_congr
    (alike : other.readRow ChainRow Key.chainBytes = ledger.readRow ChainRow Key.chainBytes) :
    other.chainId = ledger.chainId := by
  simp only [chainId, alike]

end Alike

end Ledger

end IngestLedger
