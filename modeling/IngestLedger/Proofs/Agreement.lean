import IngestLedger.Proofs.Backfills
import IngestLedger.Proofs.NewerRows

/-!
# Ledgers that agree on progress

Two ledgers agree on the progress of live runs, or on that of backfills, when they have the same
chain, the same rows of this progress and stores that take all writes. Their identity tables may
differ, as long as a row that can be read in the one can be read in the other, or is the same. An
operation that both of them carry out is then answered alike, up to the number of stale events of a
batch, and does the same to the rows of progress.

Main definitions:

* `Backend.TakesAll`: a store whose writes do not fail.
* `Store.SameTable`: two stores with the same entries in a table.
* `Store.EquallyReadable`: two stores with the same value under a key, or with readable rows.
* `Ledger.AgreesOn`: everything that the progress of a kind depends on.
* `Ledger.ProgressAlike`: two results with the same answers and rows, as far as progress goes.

Main statements:

* `Ledger.planEvents_alike`: events are planned alike, up to their number.
* `Ledger.AgreesOn.transact`: plans that are alike are carried out alike.
* `Ledger.AgreesOn.commitBatch`: a batch is committed by both ledgers or by neither.
-/

namespace IngestLedger

/-! ### Stores whose writes do not fail -/

namespace Backend

/-- A store takes some batches one after another. -/
def Takes (backend : Backend) : List (List Entry) → Prop
  | [] => True
  | batch :: batches => ∃ after, backend.write batch = (.ok (), after) ∧ after.Takes batches

/-- A store that takes all batches. -/
def TakesAll (backend : Backend) : Prop := ∀ batches, backend.Takes batches

theorem TakesAll.exists_write {backend : Backend} (h : backend.TakesAll) (batch : List Entry) :
    ∃ after, backend.write batch = (.ok (), after) := by
  obtain ⟨after, written, -⟩ := h [batch]
  exact ⟨after, written⟩

theorem TakesAll.write {backend : Backend} (h : backend.TakesAll) (batch : List Entry) :
    (backend.write batch).2.TakesAll := by
  intro batches
  obtain ⟨after, written, takes⟩ := h (batch :: batches)
  rw [written]
  exact takes

/-- A store in memory takes all batches, unless its writes are made to fail. -/
theorem takesAll_of_home_none {backend : Backend} (memory : backend.home = none)
    (works : backend.faults.write = none) : backend.TakesAll := by
  intro batches
  induction batches generalizing backend with
  | nil => trivial
  | cons batch batches ih =>
    obtain ⟨after, written⟩ := exists_write_ok memory works batch
    have kept := home_faults_of_write backend batch
    rw [written] at kept
    exact ⟨after, written, ih (kept.1.trans memory) (by rw [kept.2]; exact works)⟩

end Backend

/-! ### Stores that agree in a table -/

namespace Store

variable {store other after after' : Store} {table : Table} {key : Key}

/-- Two stores have the same entries in a table. -/
def SameTable (table : Table) (store other : Store) : Prop :=
  ∀ bytes, table.tag.isPrefixOf bytes = true → other.get? bytes = store.get? bytes

theorem SameTable.get?_eq (h : SameTable key.table store other) {bytes : Bytes}
    (hkey : key.bytes = .ok bytes) : other.get? bytes = store.get? bytes :=
  h bytes ((Key.tag_isPrefixOf_iff hkey).2 rfl)

theorem SameTable.insertAll (h : SameTable table store other) (entries : List Entry) :
    SameTable table (store.insertAll entries) (other.insertAll entries) :=
  fun bytes inside => get?_insertAll_congr (h bytes inside) entries

/-- What is written to other tables does not matter. -/
theorem WrittenWithin.sameTable {keys : List Key} (h : WrittenWithin keys store after)
    (outside : ∀ key ∈ keys, key.table ≠ table) : SameTable table store after := by
  obtain ⟨changes, within, rfl⟩ := h
  intro bytes inside
  refine get?_insertAll_of_forall_ne (fun e member same => ?_) store
  obtain ⟨key, written, hkey, -⟩ := within e member
  rw [same] at hkey
  exact outside key written ((Key.tag_isPrefixOf_iff hkey).1 inside)

/-- Entries of identity tables do not matter to other tables. -/
theorem sameTable_insertAll_identity (other : table ∉ Table.identity) {entries : List Entry}
    (identity : ∀ e ∈ entries, IsIdentityKey e.1) (store : Store) :
    SameTable table store (store.insertAll entries) := by
  intro bytes inside
  refine get?_insertAll_of_forall_ne (fun e member same => ?_) store
  obtain ⟨table', identities, front⟩ := identity e member
  rw [same, List.isPrefixOf_iff_prefix] at front
  rw [List.isPrefixOf_iff_prefix] at inside
  -- all tags are of one length
  have fronts : table.tag = table'.tag := by
    rw [List.prefix_iff_eq_take.1 inside, List.prefix_iff_eq_take.1 front, Table.length_tag,
      Table.length_tag]
  rw [Table.tag_injective fronts] at other
  exact other identities

theorem SameTable.refl (table : Table) (store : Store) : SameTable table store store :=
  fun _ _ => rfl

theorem SameTable.trans (h : SameTable table store other) (h' : SameTable table other after) :
    SameTable table store after :=
  fun bytes inside => (h' bytes inside).trans (h bytes inside)

theorem SameTable.symm (h : SameTable table store other) : SameTable table other store :=
  fun bytes inside => (h bytes inside).symm

/-- Two stores agree in a table after the same entries and some of identity tables. -/
theorem SameTable.insertAll_append (h : SameTable table store other)
    (foreign : table ∉ Table.identity) (common : List Entry) {rest rest' : List Entry}
    (identity : ∀ e ∈ rest ++ rest', IsIdentityKey e.1) :
    SameTable table (store.insertAll (common ++ rest)) (other.insertAll (common ++ rest')) := by
  have kept : SameTable table (store.insertAll common) ((store.insertAll common).insertAll rest) :=
    sameTable_insertAll_identity foreign
      (fun e member => identity e (List.mem_append_left _ member)) _
  have kept' : SameTable table (other.insertAll common)
      ((other.insertAll common).insertAll rest') :=
    sameTable_insertAll_identity foreign
      (fun e member => identity e (List.mem_append_right _ member)) _
  rw [Store.insertAll_append, Store.insertAll_append]
  exact (kept.symm.trans (h.insertAll common)).trans kept'

/-- Two stores have the same value under a key, or both have rows there that can be read. -/
def EquallyReadable (key : Key) (store other : Store) : Prop :=
  other.value? key = store.value? key ∨ store.IsReadable key ∧ other.IsReadable key

/-- Rows stay equally readable when they give way to newer ones: what cannot be read stays. -/
theorem EquallyReadable.of_givesWay (h : EquallyReadable key store other)
    (gives : store.GivesWay after key) (gives' : other.GivesWay after' key) :
    EquallyReadable key after after' := by
  have keeps := gives.isReadable
  have keeps' := gives'.isReadable
  rcases h with same | ⟨readable, readable'⟩
  · rcases gives with kept | ⟨-, -, readable, -⟩
    · rcases gives' with kept' | ⟨-, -, readable', -⟩
      · exact .inl (kept'.trans (same.trans kept.symm))
      · have readable := readable'.congr same.symm
        exact .inr ⟨keeps readable, keeps' readable'⟩
    · exact .inr ⟨keeps readable, keeps' (readable.congr same)⟩
  · exact .inr ⟨keeps readable, keeps' readable'⟩

end Store

/-! ### Plans that are alike -/

/-- Two results that fail alike, or are both answered. -/
def FailsAlike {ε α : Type} (one other : Except ε α) : Prop :=
  (∃ e, one = .error e ∧ other = .error e) ∨ (∃ a, one = .ok a) ∧ ∃ b, other = .ok b

theorem FailsAlike.of_eq {ε α : Type} {one other : Except ε α} (same : other = one) :
    FailsAlike one other := by
  subst same
  cases other with
  | error e => exact .inl ⟨e, rfl, rfl⟩
  | ok a => exact .inr ⟨⟨a, rfl⟩, a, rfl⟩

/-- Two plans that fail alike, or whose answers agree in some respect and which write the same
beside the identity tables. -/
inductive PlannedAlike {α β : Type} (f : α → β) :
    Except LedgerError (α × Changes) → Except LedgerError (α × Changes) → Prop
  | error (e : LedgerError) : PlannedAlike f (.error e) (.error e)
  | ok {a b : α} {c d : Changes} {common rest rest' : List Entry} (answers : f b = f a)
    (one : c.entries = common ++ rest) (other : d.entries = common ++ rest')
    (identity : ∀ e ∈ rest ++ rest', IsIdentityKey e.1) : PlannedAlike f (.ok (a, c)) (.ok (b, d))

theorem PlannedAlike.of_eq {α β : Type} (f : α → β)
    {planned planned' : Except LedgerError (α × Changes)} (same : planned' = planned) :
    PlannedAlike f planned planned' := by
  subst same
  cases planned' with
  | error e => exact .error e
  | ok both =>
    have whole : both.2.entries = both.2.entries ++ [] := (List.append_nil _).symm
    exact .ok rfl whole whole (by simp)

namespace Ledger

variable {ledger other : Ledger} {now : Timestamp} {kind : ProgressKind} {event : IdentityEvent}
  {events : List IdentityEvent}

/-- What is read under a key depends on what stands there and on whether reading fails. -/
theorem readsAlike_of_sameTable {α : Type} [Row α] {key : Key}
    (faults : other.backend.faults = ledger.backend.faults)
    (same : Store.SameTable key.table ledger.contents other.contents) :
    ReadsAlike α ledger other key := by
  intro bytes hkey
  have value := same.get?_eq (keyBytes_eq_ok_iff.1 hkey)
  unfold contents at value
  simp only [readRow, Backend.get, faults, value]

/-- The row of an event is read alike, or can be read from both stores. -/
theorem readFact_alike (faults : other.backend.faults = ledger.backend.faults)
    (readable : Store.EquallyReadable event.key ledger.contents other.contents) {row : Bytes}
    (hrow : event.key.bytes = .ok row) :
    other.readFact event row = ledger.readFact event row ∨
      (∃ stored, ledger.readFact event row = .ok stored) ∧
        ∃ stored, other.readFact event row = .ok stored := by
  rcases readable with same | ⟨readable, readable'⟩
  · rw [Store.value?_eq hrow, Store.value?_eq hrow] at same
    unfold contents at same
    refine .inl ?_
    cases event <;> simp only [readFact, readRow, Backend.get, faults, same]
  · cases fault : ledger.backend.faults.get with
    | some e =>
      refine .inl ?_
      cases event <;> simp only [readFact, readRow, Backend.get, faults, fault]
    | none =>
      refine .inr ⟨exists_readFact_of_isReadable hrow fault readable, ?_⟩
      exact exists_readFact_of_isReadable hrow (by rw [faults]; exact fault) readable'

/-- An event whose row can be read and whose texts fit is planned. -/
theorem exists_planEvent_of_readFact {row index : Bytes} (hrow : keyBytes event.key = .ok row)
    (hindex : keyBytes event.key.reversed = .ok index) {stored : Option IdentityEvent}
    (read : ledger.readFact event row = .ok stored) (fits : event.record.isOk = true) :
    ∃ outcome changes, ledger.planEvent event = .ok (outcome, changes) := by
  rw [planEvent_eq, hrow, hindex]
  cases encoded : event.record with
  | error e =>
    rw [encoded] at fits
    cases fits
  | ok value =>
    simp only [bind, Except.bind, read]
    split
    · exact ⟨_, _, rfl⟩
    · exact ⟨_, _, rfl⟩

/-- An event is planned over both of two stores in which its row is equally readable, or over
neither; it may be stale for the one and fresh for the other. -/
theorem planEvent_alike (faults : other.backend.faults = ledger.backend.faults)
    (readable : Store.EquallyReadable event.key ledger.contents other.contents)
    (fits : event.record.isOk = true) :
    FailsAlike (ledger.planEvent event) (other.planEvent event) := by
  cases hrow : keyBytes event.key with
  | error e => exact .of_eq (by rw [planEvent_eq, planEvent_eq, hrow]; rfl)
  | ok row =>
    cases hindex : keyBytes event.key.reversed with
    | error e => exact .of_eq (by rw [planEvent_eq, planEvent_eq, hrow, hindex]; rfl)
    | ok index =>
      rcases readFact_alike faults readable (keyBytes_eq_ok_iff.1 hrow) with
        read | ⟨⟨stored, read⟩, stored', read'⟩
      · refine .of_eq ?_
        rw [planEvent_eq, planEvent_eq, hrow, hindex]
        simp only [bind, Except.bind, read]
      · obtain ⟨outcome, changes, planned⟩ := exists_planEvent_of_readFact hrow hindex read fits
        obtain ⟨outcome', changes', planned'⟩ :=
          exists_planEvent_of_readFact hrow hindex read' fits
        exact .inr ⟨⟨_, planned⟩, _, planned'⟩

theorem planEvents_alike (faults : other.backend.faults = ledger.backend.faults)
    (readable : ∀ event ∈ events,
      Store.EquallyReadable event.key ledger.contents other.contents)
    (fits : ∀ event ∈ events, event.record.isOk = true) :
    FailsAlike (ledger.planEvents events) (other.planEvents events) := by
  induction events with
  | nil => exact .of_eq rfl
  | cons event events ih =>
    have rest := ih (fun e later => readable e (List.mem_cons_of_mem _ later))
      fun e later => fits e (List.mem_cons_of_mem _ later)
    simp only [planEvents]
    rcases planEvent_alike faults (readable event List.mem_cons_self)
        (fits event List.mem_cons_self) with
      ⟨e, failed, failed'⟩ | ⟨⟨first, planned⟩, first', planned'⟩
    · rw [failed, failed']
      exact .inl ⟨e, rfl, rfl⟩
    · rw [planned, planned']
      rcases rest with ⟨e, failed, failed'⟩ | ⟨⟨others, later⟩, others', later'⟩
      · rw [failed, failed']
        exact .inl ⟨e, rfl, rfl⟩
      · rw [later, later']
        exact .inr ⟨⟨_, rfl⟩, _, rfl⟩

/-! ### Ledgers that agree on a kind of progress -/

/-- What two ledgers have in common when the operations of other runs were left out for the one:
everything that the progress of a kind depends on. -/
structure AgreesOn (kind : ProgressKind) (ledger other : Ledger) : Prop where
  faults : other.backend.faults = ledger.backend.faults
  takes : ledger.backend.TakesAll
  takes' : other.backend.TakesAll
  verifiedChain : other.verifiedChain = ledger.verifiedChain
  runs : kind = .backfill → other.runs = ledger.runs
  chain : Store.SameTable .chain ledger.contents other.contents
  progress : Store.SameTable kind.table ledger.contents other.contents
  readable : ∀ key : Key, key.table ∈ Table.versioned →
    Store.EquallyReadable key ledger.contents other.contents

/-- Two results whose answers agree in some respect, and whose ledgers agree on progress. -/
structure ProgressAlike {α β : Type} (kind : ProgressKind) (f : α → β)
    (result other : Except LedgerError α × Ledger) : Prop where
  answer : other.1.map f = result.1.map f
  verifiedChain : other.2.verifiedChain = result.2.verifiedChain
  runs : kind = .backfill → other.2.runs = result.2.runs
  chain : Store.SameTable .chain result.2.contents other.2.contents
  progress : Store.SameTable kind.table result.2.contents other.2.contents

theorem ProgressAlike.answering {α β : Type} {f : α → β}
    {result other : Except LedgerError α × Ledger} (h : ProgressAlike kind f result other)
    (answer : α → Answer) :
    ProgressAlike kind (fun _ => ()) (answering answer result) (answering answer other) where
  answer := by
    have unit (x : Except LedgerError α) :
        (x.map answer).map (fun _ => ()) = (x.map f).map fun _ => () := by cases x <;> rfl
    show (other.1.map answer).map _ = (result.1.map answer).map _
    rw [unit, unit, h.answer]
  verifiedChain := h.verifiedChain
  runs := h.runs
  chain := h.chain
  progress := h.progress

theorem ProgressAlike.eq {α : Type} {result other : Except LedgerError α × Ledger}
    (h : ProgressAlike kind id result other) : other.1 = result.1 := by
  have same (x : Except LedgerError α) : x.map id = x := by cases x <;> rfl
  rw [← same other.1, h.answer, same]

namespace AgreesOn

/-- Plans that are alike are carried out alike. -/
theorem transact {α β : Type} {f : α → β} (h : ledger.AgreesOn kind other)
    {planned planned' : Except LedgerError (α × Changes)}
    (alike : PlannedAlike f planned planned') :
    ProgressAlike kind f (ledger.transact planned) (other.transact planned') := by
  have kept := sameAround_transact ledger planned
  have kept' := sameAround_transact other planned'
  have verified : (other.transact planned').2.verifiedChain =
      (ledger.transact planned).2.verifiedChain := by
    rw [kept'.verifiedChain, kept.verifiedChain, h.verifiedChain]
  have runs : kind = .backfill →
      (other.transact planned').2.runs = (ledger.transact planned).2.runs := fun backfill => by
    rw [kept'.runs, kept.runs, h.runs backfill]
  cases alike with
  | error e => exact ⟨rfl, verified, runs, h.chain, h.progress⟩
  | @ok a b c d common rest rest' answers one two identity =>
    obtain ⟨after, result⟩ : ∃ after, ledger.transact (.ok (a, c)) = (.ok a, after) :=
      transact_ok_of_planned rfl (.inr (h.takes.exists_write _))
    obtain ⟨after', result'⟩ : ∃ after, other.transact (.ok (b, d)) = (.ok b, after) :=
      transact_ok_of_planned rfl (.inr (h.takes'.exists_write _))
    obtain ⟨_, planned, contents, -⟩ := transact_ok result
    obtain ⟨-, rfl⟩ := Prod.mk.inj (Except.ok.inj planned)
    obtain ⟨_, planned', contents', -⟩ := transact_ok result'
    obtain ⟨-, rfl⟩ := Prod.mk.inj (Except.ok.inj planned')
    rw [result, result'] at verified runs ⊢
    refine ⟨congrArg Except.ok answers, verified, runs, ?_, ?_⟩
    · rw [contents, contents', one, two]
      exact h.chain.insertAll_append (by decide) common identity
    · rw [contents, contents', one, two]
      exact h.progress.insertAll_append kind.table_notMem_identity common identity

/-- What asks for a verified chain is planned alike. -/
theorem guarded {α β : Type} {f : α → β} (h : ledger.AgreesOn kind other)
    {plan plan' : Except LedgerError (α × Changes)} (alike : PlannedAlike f plan plan') :
    ProgressAlike kind f (ledger.transact (do let _ ← ledger.ensureVerified; plan))
      (other.transact (do let _ ← other.ensureVerified; plan')) := by
  refine h.transact ?_
  rw [ensureVerified_congr h.verifiedChain]
  cases ledger.ensureVerified with
  | error e => exact .error e
  | ok chain => exact alike

theorem verifyChain (h : ledger.AgreesOn kind other) (chain : ChainId) :
    ProgressAlike kind id (ledger.verifyChain chain) (other.verifyChain chain) := by
  have recorded := h.transact (PlannedAlike.of_eq id (rfl : planChain chain = planChain chain))
  have alike : ReadsAlike ChainRow ledger other .chain :=
    readsAlike_of_sameTable h.faults h.chain
  have read : other.chainId = ledger.chainId := chainId_congr (alike _ rfl)
  have answer : (other.verifyChain chain).1 = (ledger.verifyChain chain).1 := by
    rw [fst_verifyChain, fst_verifyChain, read, recorded.eq]
  refine ⟨congrArg (Except.map id) answer, ?_, fun backfill => ?_, ?_, ?_⟩
  · rw [verifiedChain_verifyChain, verifiedChain_verifyChain, answer, h.verifiedChain]
  · rw [runs_verifyChain, runs_verifyChain, h.runs backfill]
  · unfold contents
    rw [backend_verifyChain, backend_verifyChain, read]
    split
    · exact recorded.chain
    · exact h.chain
  · unfold contents
    rw [backend_verifyChain, backend_verifyChain, read]
    split
    · exact recorded.progress
    · exact h.progress

/-- An event is applied by both ledgers or by neither. -/
theorem apply (h : ledger.AgreesOn kind other) (fits : event.record.isOk = true) :
    ProgressAlike kind (fun _ => ()) (ledger.apply event) (other.apply event) := by
  refine h.guarded ?_
  rcases planEvent_alike h.faults (h.readable event.key event.table_key_mem_versioned) fits with
    ⟨e, failed, failed'⟩ | ⟨⟨⟨outcome, changes⟩, planned⟩, ⟨outcome', changes'⟩, planned'⟩
  · rw [failed, failed']
    exact .error e
  · rw [planned, planned']
    refine .ok rfl (List.nil_append _).symm (List.nil_append _).symm fun e member => ?_
    rcases List.mem_append.1 member with here | here
    · exact isIdentityKey_of_planEvent planned e here
    · exact isIdentityKey_of_planEvent planned' e here

/-! ### Operations of live runs -/

theorem reads_processor (h : ledger.AgreesOn .live other) (processor : String) :
    ReadsAlike ProcessorRow ledger other (.processor processor) :=
  readsAlike_of_sameTable h.faults h.progress

theorem advance (h : ledger.AgreesOn .live other) (now : Timestamp) (processor : String)
    (version : Version) (time : Option Timestamp) :
    ProgressAlike .live id (ledger.advance now processor version time)
      (other.advance now processor version time) :=
  h.guarded (.of_eq id (planAdvance_congr (h.reads_processor processor) now version time))

theorem resolveRange_live (h : ledger.AgreesOn .live other) (now : Timestamp) (processor : String)
    (initial : Version) :
    ProgressAlike .live id (ledger.resolveRange now processor (.live initial))
      (other.resolveRange now processor (.live initial)) := by
  rw [Ledger.resolveRange_live, Ledger.resolveRange_live,
    resumeVersion_congr (h.reads_processor processor)]
  exact ⟨rfl, h.verifiedChain, h.runs, h.chain, h.progress⟩

/-! ### Operations of backfills -/

theorem reads_backfill (h : ledger.AgreesOn .backfill other) (name : String) :
    ReadsAlike BackfillRow ledger other (.backfill name) :=
  readsAlike_of_sameTable h.faults h.progress

theorem startOrResume (h : ledger.AgreesOn .backfill other) (now : Timestamp) (name : String)
    (run : BackfillRun) :
    ProgressAlike .backfill id (ledger.startOrResume now name run)
      (other.startOrResume now name run) := by
  have alike := h.transact
    (.of_eq id (planStart_congr (h.reads_backfill name) h.verifiedChain now run))
  have answer : (other.startOrResume now name run).1 = (ledger.startOrResume now name run).1 := by
    rw [fst_startOrResume, fst_startOrResume, alike.eq]
  refine ⟨congrArg (Except.map id) answer, ?_, fun _ => ?_, ?_, ?_⟩
  · rw [verifiedChain_startOrResume, verifiedChain_startOrResume, h.verifiedChain]
  · rw [runs_startOrResume, runs_startOrResume, answer, h.runs rfl]
  · unfold contents
    rw [backend_startOrResume, backend_startOrResume]
    exact alike.chain
  · unfold contents
    rw [backend_startOrResume, backend_startOrResume]
    exact alike.progress

theorem planBackfillAdvance (h : ledger.AgreesOn .backfill other) (now : Timestamp) (name : String)
    (version : Version) (time : Option Timestamp) :
    other.planBackfillAdvance now name version time =
      ledger.planBackfillAdvance now name version time := by
  refine planBackfillAdvance_congr (h.reads_backfill name) (fun _ _ _ _ => ?_) now version time
  simp only [backfillSettings, h.runs rfl]

theorem advanceBackfill (h : ledger.AgreesOn .backfill other) (now : Timestamp) (name : String)
    (version : Version) (time : Option Timestamp) :
    ProgressAlike .backfill id (ledger.advanceBackfill now name version time)
      (other.advanceBackfill now name version time) :=
  h.guarded (.of_eq id (h.planBackfillAdvance now name version time))

theorem resolveRange_backfill (h : ledger.AgreesOn .backfill other) (now : Timestamp)
    (processor name : String) (run : BackfillRun) :
    ProgressAlike .backfill id
      (ledger.resolveRange now processor (.backfill name run.initial run.ending run.overwrite))
      (other.resolveRange now processor
        (.backfill name run.initial run.ending run.overwrite)) := by
  have alike := h.startOrResume now (backfillAlias processor name) run
  rw [Ledger.resolveRange_backfill, Ledger.resolveRange_backfill, alike.eq]
  exact ⟨rfl, alike.verifiedChain, alike.runs, alike.chain, alike.progress⟩

/-! ### Committing a batch -/

theorem planCheckpoint (h : ledger.AgreesOn kind other) (now : Timestamp) (processor : String)
    (batch : BatchInfo) {mode : RunMode} (kept : mode.kind? = some kind) :
    other.planCheckpoint now processor batch mode =
      ledger.planCheckpoint now processor batch mode := by
  cases mode with
  | live initial =>
    obtain rfl := Option.some.inj kept
    simp only [Ledger.planCheckpoint, planAdvance_congr (h.reads_processor processor)]
  | backfill name initial ending overwrite =>
    obtain rfl := Option.some.inj kept
    simp only [Ledger.planCheckpoint, h.planBackfillAdvance]
  | testing start ending => cases kept

/-- A batch is committed by both ledgers or by neither, and does the same to its progress row. -/
theorem commitBatch (h : ledger.AgreesOn kind other) (now : Timestamp) (processor : String)
    {mode : RunMode} (kept : mode.kind? = some kind) (batch : BatchInfo)
    (fits : ∀ event ∈ events, event.record.isOk = true) :
    ProgressAlike kind BatchOutcome.checkpoint
      (ledger.commitBatch now processor mode batch events)
      (other.commitBatch now processor mode batch events) := by
  have progress := h.planCheckpoint now processor batch kept
  have rest : FailsAlike (ledger.planEvents (coalesce events))
      (other.planEvents (coalesce events)) :=
    planEvents_alike h.faults
      (fun event _ => h.readable event.key event.table_key_mem_versioned)
      fun event member => fits event (mem_coalesce_iff.1 member).mem
  refine h.guarded ?_
  rw [planBatch, planBatch, progress]
  cases ledger.planCheckpoint now processor batch mode with
  | error e => exact .error e
  | ok both =>
    obtain ⟨checkpoint, changes⟩ := both
    rcases rest with
      ⟨e, failed, failed'⟩ | ⟨⟨⟨tally, rows⟩, planned⟩, ⟨tally', rows'⟩, planned'⟩
    · rw [failed, failed']
      exact .error e
    · rw [planned, planned']
      refine .ok rfl rfl rfl fun e member => ?_
      rcases List.mem_append.1 member with here | here
      · exact isIdentityKey_of_planEvents planned e here
      · exact isIdentityKey_of_planEvents planned' e here

end AgreesOn

end Ledger

end IngestLedger
