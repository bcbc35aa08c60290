import IngestLedger.Proofs.Backfills

/-!
# Jobs that keep their progress

A job processes the versions from its initial one on, live or in a backfill that does not begin
anew. Its row tells the last version it has processed. The range that it is given begins after that
version, and a batch that ends beyond it moves the row.

Main definitions:

* `Consecutive`: batches that follow on one another.
* `Job`: what is to be processed, and `Job.lastVersion?`, the progress in its row.
* `Job.GoesOnAt`: where a job has to go on.

Main statements:

* `Consecutive.covers`, `Consecutive.pairwise`: which versions such batches cover, and that they do
  so once.
* `Job.first_of_resolveRange`: a range begins where the job has to go on.
* `Job.commitBatch_ok`: a batch beyond the progress of a job is new progress.
-/

namespace IngestLedger

/-! ### Batches that follow on one another -/

/-- Batches that follow on one another, from an initial version up to the one before `next`. -/
inductive Consecutive (initial : Version) : List BatchInfo → Version → Prop
  | nil : Consecutive initial [] initial
  | snoc {batches : List BatchInfo} {batch : BatchInfo} {next : Version}
      (before : Consecutive initial batches next) (follows : batch.first = next)
      (ordered : batch.first ≤ batch.last) (below : batch.last < Version.greatest) :
    Consecutive initial (batches ++ [batch]) (batch.last + 1)

theorem Version.toNat_succ {version : Version} (below : version < greatest) :
    (version + 1).toNat = version.toNat + 1 := by
  have less : version.toNat < greatest.toNat := UInt64.lt_iff_toNat_lt.1 below
  rw [toNat_greatest] at less
  rw [UInt64.toNat_add, UInt64.toNat_one]
  omega

theorem Version.next_eq_succ {version : Version} (below : version < greatest) :
    version.next = version + 1 := by
  have proper : version ≠ greatest := UInt64.ne_of_lt below
  rw [next, if_neg proper]

theorem Version.lt_succ_iff {version last : Version} (below : last < greatest) :
    version < last + 1 ↔ version ≤ last := by
  rw [UInt64.lt_iff_toNat_lt, UInt64.le_iff_toNat_le, toNat_succ below]
  omega

namespace Consecutive

variable {initial next : Version} {batches : List BatchInfo}

theorem next_eq_of_nil (h : Consecutive initial batches next) (none : batches = []) :
    next = initial := by
  cases h with
  | nil => rfl
  | snoc before follows ordered below => exact absurd none (by simp)

theorem le (h : Consecutive initial batches next) : initial ≤ next := by
  induction h with
  | nil => exact UInt64.le_refl initial
  | snoc before follows ordered below ih =>
    refine UInt64.le_trans ih ?_
    rw [← follows, UInt64.le_iff_toNat_le, Version.toNat_succ below]
    have le := UInt64.le_iff_toNat_le.1 ordered
    omega

theorem ordered (h : Consecutive initial batches next) :
    ∀ batch ∈ batches, batch.first ≤ batch.last ∧ batch.last < next := by
  induction h with
  | nil => exact nofun
  | @snoc batches last next before follows ordered below ih =>
    intro batch member
    rw [Version.lt_succ_iff below]
    rcases List.mem_append.1 member with earlier | here
    · obtain ⟨proper, less⟩ := ih batch earlier
      exact ⟨proper, UInt64.le_trans (UInt64.le_of_lt less) (follows ▸ ordered)⟩
    · obtain rfl := List.mem_singleton.1 here
      exact ⟨ordered, UInt64.le_refl _⟩

/-- Each batch ends before the ones after it begin. -/
theorem pairwise (h : Consecutive initial batches next) :
    batches.Pairwise fun a b => a.last < b.first := by
  induction h with
  | nil => exact .nil
  | snoc before follows ordered below ih =>
    refine List.pairwise_append.2 ⟨ih, List.pairwise_singleton .., fun a earlier b here => ?_⟩
    obtain rfl := List.mem_singleton.1 here
    rw [follows]
    exact (before.ordered a earlier).2

/-- The batches cover the versions between their ends, and no others. -/
theorem covers (h : Consecutive initial batches next) (version : Version) :
    (∃ batch ∈ batches, batch.first ≤ version ∧ version ≤ batch.last) ↔
      initial ≤ version ∧ version < next := by
  induction h with
  | nil =>
    refine iff_of_false (by simp) fun ⟨le, less⟩ => ?_
    exact UInt64.not_lt.2 le less
  | @snoc batches last next before follows ordered below ih =>
    rw [Version.lt_succ_iff below]
    constructor
    · rintro ⟨batch, member, first, upTo⟩
      rcases List.mem_append.1 member with earlier | here
      · obtain ⟨le, less⟩ := ih.1 ⟨batch, earlier, first, upTo⟩
        exact ⟨le, UInt64.le_trans (UInt64.le_of_lt less) (follows ▸ ordered)⟩
      · obtain rfl := List.mem_singleton.1 here
        exact ⟨UInt64.le_trans before.le (follows ▸ first), upTo⟩
    · rintro ⟨le, upTo⟩
      -- the version lies before the last batch or in it
      rcases UInt64.lt_or_le version next with less | beyond
      · obtain ⟨batch, earlier, inside⟩ := ih.2 ⟨le, less⟩
        exact ⟨batch, List.mem_append_left _ earlier, inside⟩
      · exact ⟨last, List.mem_append_right _ List.mem_cons_self, follows ▸ beyond, upTo⟩

end Consecutive

/-! ### Jobs and their progress -/

theorem BackfillRow.bind_next? (stored : Option BackfillRow) :
    stored.bind next? = (stored.bind lastVersion).map Version.next := by
  cases stored <;> rfl

/-- A live run goes on where the row of its processor tells. -/
theorem Ledger.first_of_resumeVersion {ledger : Ledger} {processor : String}
    {initial first : Version} (answered : ledger.resumeVersion processor initial = .ok first) :
    first = match ledger.contents.row? ProcessorRow (.processor processor) with
      | some row => row.resume
      | none => initial := by
  unfold resumeVersion checkpoint at answered
  split at answered
  · rename_i row fetched
    rw [row?_of_fetch fetched]
    exact (Except.ok.inj answered).symm
  · rename_i fetched
    rw [row?_of_fetch fetched]
    exact (Except.ok.inj answered).symm
  · cases answered

/-- What is to be processed, with progress that is kept. -/
inductive Job where
  /-- Follow the stream from `initial` on. -/
  | live (processor : String) (initial : Version)
  /-- Process a stretch again, going on after earlier progress. -/
  | backfill (processor id : String) (initial : Version) (ending : Option Version)
  deriving DecidableEq, Repr

namespace Job

def processor : Job → String
  | live processor _ => processor
  | backfill processor .. => processor

def initial : Job → Version
  | live _ initial => initial
  | backfill _ _ initial _ => initial

/-- The mode in which the job runs. -/
def mode : Job → RunMode
  | live _ initial => .live initial
  | backfill _ id initial ending => .backfill id initial ending false

/-- The row that keeps the progress. -/
def key : Job → Key
  | live processor _ => .processor processor
  | backfill processor id .. => .backfill (backfillAlias processor id)

/-- The last version that was processed, as the row tells. -/
def lastVersion? (store : Store) : Job → Option Version
  | live processor _ =>
    (store.row? ProcessorRow (.processor processor)).map ProcessorRow.lastVersion
  | backfill processor id .. =>
    (store.row? BackfillRow (.backfill (backfillAlias processor id))).bind BackfillRow.lastVersion

variable {job : Job} {before : Store} {ledger : Ledger} {now : Timestamp}

/-- The last version that a value tells, as the row of the job. -/
def lastVersionIn (value : Bytes) : Job → Option Version
  | live .. => (Record.decode [] value : Except LedgerError ProcessorRow).toOption.map
      ProcessorRow.lastVersion
  | backfill .. => (Record.decode [] value : Except LedgerError BackfillRow).toOption.bind
      BackfillRow.lastVersion

theorem lastVersion?_eq (job : Job) (store : Store) :
    job.lastVersion? store = (store.value? job.key).bind (lastVersionIn · job) := by
  cases job with
  | live processor initial =>
    simp only [lastVersion?, Store.row?, Option.map_bind]
    rfl
  | backfill processor id initial ending =>
    simp only [lastVersion?, Store.row?, Option.bind_assoc]
    rfl

theorem lastVersion?_of_value?_none (free : before.value? job.key = none) :
    job.lastVersion? before = none := by
  rw [lastVersion?_eq, free, Option.bind_none]

/-- The row of a job is in no identity table. -/
theorem table_key_notMem (job : Job) : job.key.table ∉ Table.identity := by
  cases job <;> simp [key, Key.table, Table.identity]

/-- A job asks for its range without writing. -/
theorem startKeys_eq_nil (job : Job) : job.mode.startKeys job.processor = [] := by
  cases job <;> rfl

/-! ### Ranges and batches -/

/-- A job has to go on at a version: after the progress in its row, or at its initial one. -/
def GoesOnAt (job : Job) (store : Store) (next : Version) : Prop :=
  (job.lastVersion? store = none ∧ next = job.initial) ∨
    ∃ last, job.lastVersion? store = some last ∧ last < Version.greatest ∧ next = last + 1

/-- Where a live job goes on. -/
theorem GoesOnAt.live {processor : String} {initial next : Version}
    (h : (Job.live processor initial).GoesOnAt before next) :
    next = match before.row? ProcessorRow (.processor processor) with
      | some row => row.resume
      | none => initial := by
  simp only [GoesOnAt, lastVersion?] at h
  rcases h with ⟨none, begins⟩ | ⟨last, here, below, rfl⟩
  · rw [Option.map_eq_none_iff.1 none]
    exact begins
  · obtain ⟨row, found, rfl⟩ := Option.map_eq_some_iff.1 here
    rw [found]
    exact (Version.next_eq_succ below).symm

/-- Where a job in a backfill goes on. -/
theorem GoesOnAt.backfill {processor id : String} {initial next : Version}
    {ending : Option Version}
    (h : (Job.backfill processor id initial ending).GoesOnAt before next)
    (le : initial ≤ next) : next = BackfillRun.firstAfter ⟨initial, ending, false⟩
      (before.row? BackfillRow (.backfill (backfillAlias processor id))) := by
  simp only [GoesOnAt, lastVersion?] at h
  rw [BackfillRun.firstAfter, BackfillRow.bind_next?]
  rcases h with ⟨none, begins⟩ | ⟨last, here, below, rfl⟩
  · rw [none]
    exact begins
  · have succ : last.next = last + 1 := Version.next_eq_succ below
    rw [here, Option.map_some]
    dsimp only
    rw [succ]
    split
    · rfl
    · rename_i notBeyond
      exact UInt64.le_antisymm (UInt64.not_lt.1 notBeyond) le

/-- The range that a job is given begins where it has to go on. -/
theorem first_of_resolveRange {range : VersionRange} {after : Ledger} {next : Version}
    (goesOn : job.GoesOnAt ledger.contents next) (le : job.initial ≤ next)
    (answered : ledger.resolveRange now job.processor job.mode = (.ok range, after)) :
    range.first = next := by
  cases job with
  | live processor initial =>
    have resolved := Ledger.resolveRange_live ledger now processor initial
    obtain ⟨answer, -⟩ := Prod.mk.inj (resolved.symm.trans answered)
    cases resumed : ledger.resumeVersion processor initial with
    | error e =>
      rw [resumed] at answer
      cases answer
    | ok first =>
      rw [resumed] at answer
      obtain rfl := Except.ok.inj answer
      exact (Ledger.first_of_resumeVersion resumed).trans goesOn.live.symm
  | backfill processor id initial ending =>
    have resolved := Ledger.resolveRange_backfill ledger now processor id ⟨initial, ending, false⟩
    obtain ⟨answer, -⟩ := Prod.mk.inj (resolved.symm.trans answered)
    cases started : (ledger.startOrResume now (backfillAlias processor id)
        ⟨initial, ending, false⟩).1 with
    | error e =>
      rw [started] at answer
      cases answer
    | ok plan =>
      rw [started] at answer
      obtain rfl := Except.ok.inj answer
      have start : plan.start = _ := (Ledger.startOrResume_ok_of_keeps rfl (Prod.ext started rfl)).1
      exact start.trans (goesOn.backfill le).symm

/-- The row that the end of a batch gives a job, when the batch goes beyond its progress. -/
theorem planCheckpoint_ok {batch : BatchInfo} {outcome : CheckpointOutcome} {changes : Changes}
    (beyond : ∀ last, job.lastVersion? ledger.contents = some last → last < batch.last)
    (planned : ledger.planCheckpoint now job.processor batch job.mode =
      .ok (outcome, changes)) :
    outcome = .advanced ∧ ∃ bytes value, job.key.bytes = .ok bytes ∧
      changes.entries = [(bytes, value)] ∧ job.lastVersionIn value = some batch.last := by
  cases job with
  | live processor initial =>
    obtain ⟨⟨moved, rest⟩, advancing, planned⟩ := bind_eq_ok_iff.1 planned
    obtain ⟨rfl, rfl⟩ := Prod.mk.inj (Except.ok.inj planned)
    obtain ⟨bytes, stored, hkey, read, result⟩ := Ledger.planAdvance_ok advancing
    rw [Ledger.keyBytes_eq_ok_iff] at hkey
    have row : ledger.contents.row? ProcessorRow (.processor processor) = stored :=
      Ledger.row?_of_readRow hkey read
    simp only [lastVersion?, row] at beyond
    obtain ⟨⟨last, here, stale⟩, -⟩ | ⟨-, rfl, value, encoded, rfl⟩ := result
    · exact absurd (beyond last here) (UInt64.not_lt.2 stale)
    · refine ⟨rfl, bytes, value, hkey, rfl, ?_⟩
      rw [lastVersionIn, Record.decode_encode encoded []]
      rfl
  | backfill processor id initial ending =>
    obtain ⟨⟨moved, rest⟩, advancing, planned⟩ := bind_eq_ok_iff.1 planned
    obtain ⟨rfl, rfl⟩ := Prod.mk.inj (Except.ok.inj planned)
    obtain ⟨bytes, stored, run, hkey, read, -, -, result⟩ := Ledger.planBackfillAdvance_ok advancing
    rw [Ledger.keyBytes_eq_ok_iff] at hkey
    have row : ledger.contents.row? BackfillRow (.backfill (backfillAlias processor id)) =
      stored := Ledger.row?_of_readRow hkey read
    simp only [lastVersion?, row] at beyond
    obtain ⟨⟨last, here, stale⟩, -⟩ | ⟨-, rfl, value, encoded, rfl⟩ := result
    · exact absurd (beyond last here) (UInt64.not_lt.2 stale)
    · refine ⟨rfl, bytes, value, hkey, rfl, ?_⟩
      rw [lastVersionIn, Record.decode_encode encoded []]
      rfl

/-- A batch that goes beyond the progress of a job is new progress. -/
theorem commitBatch_ok {batch : BatchInfo} {events : List IdentityEvent} {outcome : BatchOutcome}
    {after : Ledger}
    (beyond : ∀ last, job.lastVersion? ledger.contents = some last → last < batch.last)
    (answered : ledger.commitBatch now job.processor job.mode batch events =
      (.ok outcome, after)) :
    outcome.checkpoint = .advanced ∧ job.lastVersion? after.contents = some batch.last := by
  obtain ⟨-, progress, rest, hprogress, hrest, contents, -⟩ := Ledger.commitBatch_ok answered
  obtain ⟨advanced, bytes, value, hkey, entries, told⟩ := planCheckpoint_ok beyond hprogress
  -- the events of the batch are written to other tables
  have outside : ∀ e ∈ rest.entries, e.1 ≠ bytes := by
    intro e member same
    have inside := Ledger.isIdentityKey_of_planEvents hrest e member
    rw [same, Key.isIdentityKey_iff hkey] at inside
    exact job.table_key_notMem inside
  have written : after.contents.value? job.key = some value := by
    rw [Store.value?_eq hkey, contents, Store.get?_insertAll_of_forall_ne outside, entries,
      Store.get?_insertAll_single]
  exact ⟨advanced, by rw [lastVersion?_eq, written, Option.bind_some, told]⟩

end Job

end IngestLedger
