import IngestLedger.Host
import IngestLedger.Proofs.Calls
import IngestLedger.Proofs.DirectoryLocks

/-!
# Opening a ledger on a host

Whether it succeeds or not, opening a ledger spares the lock files on the disk, as calls do. When it
fails once the lock is taken, it touches the disk at most: the ways on it stay, and the error is not
put down to a lock.

Main statements:

* `Ledger.spares_openOn`, `Ledger.spares_perform`: opening and calls spare lock files.
* `Host.openWith_ok`, `Host.openWith_error`: what opening comes to under a lock.
* `Host.openWith_memory`: a ledger in memory is always opened.
-/

namespace IngestLedger

theorem StoreKind.eq_memory {kind : StoreKind} (h : ¬ kind.isPersistent = true) :
    kind = .memory := by
  cases kind with
  | memory => rfl
  | file => exact absurd rfl h
  | rocksDb => exact absurd rfl h

namespace Backend

open DirectoryLock (fileName)

variable {disk : Disk} {backend : Backend}

/-- Writes spare the lock files of a disk. -/
theorem spares_write (spares : disk.Spares fileName backend.disk) (batch : List Entry) :
    disk.Spares fileName (backend.write batch).2.disk := by
  unfold Backend.write overwrite
  split
  · exact spares
  · dsimp only
    split
    · exact spares
    · rename_i home _
      have saved : backend.disk.Spares fileName
          (Backend.save backend.disk home (backend.contents.insertAll batch)).2 :=
        Disk.spares_save spares.tree home _ (by decide) (by decide)
      split
      · rename_i result
        rw [result] at saved
        exact spares.trans saved
      · rename_i result
        rw [result] at saved
        exact spares.trans saved

/-- A batch that cannot be written leaves the ways on a disk as they are. -/
theorem keepsWays_write {after : Backend} {batch : List Entry} {e : StoreError}
    (tree : backend.disk.IsTree) (refused : backend.write batch = (.error e, after)) :
    backend.disk.KeepsWays after.disk := by
  unfold Backend.write overwrite at refused
  split at refused
  · obtain ⟨-, rfl⟩ := Prod.mk.inj refused
    exact .refl _
  · dsimp only at refused
    split at refused
    · cases (Prod.mk.inj refused).1
    · split at refused
      · cases (Prod.mk.inj refused).1
      · rename_i saved
        obtain ⟨-, rfl⟩ := Prod.mk.inj refused
        exact Disk.keepsWays_save tree saved

end Backend

namespace Ledger

open DirectoryLock (fileName)

variable {ledger after : Ledger} {e : LedgerError}

/-- A row that cannot be read is not put down to a lock. -/
theorem readRow_error {α : Type} [Row α] {key : Bytes} (failed : ledger.readRow α key = .error e)
    (reason : String) : e ≠ .databaseLocked reason := by
  rintro rfl
  unfold readRow at failed
  split at failed
  · cases failed
  · cases failed
  · split at failed
    · rename_i damaged
      obtain rfl := Except.error.inj failed
      unfold Record.decode at damaged
      split at damaged
      · cases damaged
      · dsimp only at damaged
        split at damaged
        · split at damaged <;> cases damaged
        · cases damaged
    · cases failed

theorem planLayout_error (failed : ledger.planLayout = .error e) (reason : String) :
    e ≠ .databaseLocked reason := by
  rcases bind_eq_error_iff.1 failed with unread | ⟨stored, -, failed⟩
  · exact readRow_error unread reason
  rintro rfl
  cases stored with
  | none =>
    rcases bind_eq_error_iff.1 failed with unwritten | ⟨value, -, failed⟩
    · unfold Record.encode at unwritten
      split at unwritten <;> cases unwritten
    · cases failed
  | some marker =>
    dsimp only at failed
    split at failed <;> cases failed

/-- Opening a ledger spares the lock files on its disk. -/
theorem spares_openOn {backend : Backend} (tree : backend.disk.IsTree) (counters : Counters) :
    backend.disk.Spares fileName (openOn backend counters).2.backend.disk :=
  transact_preserves (p := fun other => backend.disk.Spares fileName other.disk)
    (fun _ batch spares => Backend.spares_write spares batch) (.refl tree fileName)
    (fresh backend counters).planLayout

theorem home_perform (ledger : Ledger) (now : Timestamp) (call : Call) :
    (ledger.perform now call).2.backend.home = ledger.backend.home :=
  perform_preserves (p := fun other => other.home = ledger.backend.home)
    (fun other batch home => (Backend.home_faults_of_write other batch).1.trans home) rfl now call

/-- A call spares the lock files on the disk of its ledger. -/
theorem spares_perform (ledger : Ledger) (tree : ledger.backend.disk.IsTree) (now : Timestamp)
    (call : Call) :
    ledger.backend.disk.Spares fileName (ledger.perform now call).2.backend.disk :=
  perform_preserves (p := fun other => ledger.backend.disk.Spares fileName other.disk)
    (fun _ batch spares => Backend.spares_write spares batch) (.refl tree fileName) now call

/-- A ledger that cannot be opened leaves the ways on the disk as they are, and this is not put down
to a lock. -/
theorem openOn_error {backend : Backend} {counters : Counters} (tree : backend.disk.IsTree)
    (failed : openOn backend counters = (.error e, after)) :
    backend.disk.KeepsWays after.backend.disk ∧ ∀ reason, e ≠ .databaseLocked reason := by
  rcases transact_cases (fresh backend counters) (fresh backend counters).planLayout with
    ⟨e', planned, result⟩ | ⟨answer, changes, -, -, result⟩ |
    ⟨answer, changes, written, -, -, -, result⟩ |
    ⟨answer, changes, e', written, -, -, refused, result⟩
  · obtain ⟨same, rfl⟩ := Prod.mk.inj (result.symm.trans failed)
    obtain rfl := Except.error.inj same
    exact ⟨.refl _, planLayout_error planned⟩
  · cases (Prod.mk.inj (result.symm.trans failed)).1
  · cases (Prod.mk.inj (result.symm.trans failed)).1
  · obtain ⟨same, rfl⟩ := Prod.mk.inj (result.symm.trans failed)
    obtain rfl := Except.error.inj same
    exact ⟨Backend.keepsWays_write tree refused, by simp [LedgerError.ofStore]⟩

end Ledger

namespace Host

open DirectoryLock (fileName)

variable {host after : Host} {name : String} {directory : Path} {kind : StoreKind}
  {lock : Option DirectoryLock}

@[simp] theorem mem_replace {α : Type} {value : α} {list : List (String × α)}
    {entry : String × α} :
    entry ∈ replace name value list ↔ entry = (name, value) ∨ entry ∈ list ∧ entry.1 ≠ name := by
  simp [replace]

@[simp] theorem mem_without {α : Type} {list : List (String × α)} {entry : String × α} :
    entry ∈ without name list ↔ entry ∈ list ∧ entry.1 ≠ name := by
  simp [without]

theorem mem_of_lookup {α : Type} {value : α} {list : List (String × α)}
    (found : list.lookup name = some value) : (name, value) ∈ list := by
  obtain ⟨front, rest, rfl, -⟩ := List.lookup_eq_some_iff.1 found
  simp

theorem nodup_names_filter {α : Type} {list : List (String × α)}
    (distinct : (list.map Prod.fst).Nodup) (keep : String × α → Bool) :
    ((list.filter keep).map Prod.fst).Nodup :=
  distinct.sublist (List.filter_sublist.map Prod.fst)

/-- The lock of a directory on a host is the one on its disk. -/
theorem exists_of_acquire {result : Except LockError DirectoryLock}
    (answered : host.acquire directory = (result, after)) : ∃ disk,
      DirectoryLock.acquire host.disk host.held host.pid directory = (result, disk) ∧
        after = { host with disk } := by
  unfold acquire at answered
  cases taken : DirectoryLock.acquire host.disk host.held host.pid directory with
  | mk result' disk =>
    rw [taken] at answered
    obtain ⟨rfl, rfl⟩ := Prod.mk.inj answered
    exact ⟨disk, rfl, rfl⟩

/-- A lock that is not taken leaves the host as it is. -/
theorem acquire_error {e : LockError} (refused : host.acquire directory = (.error e, after)) :
    after = host := by
  obtain ⟨disk, unheld, rfl⟩ := exists_of_acquire refused
  rw [DirectoryLock.acquire_error unheld]

/-- A directory whose lock file nobody holds can be made and locked. -/
theorem exists_prepareDirectory_ok (tree : host.disk.IsTree) {home : Place}
    (lockable : host.disk.IsLockable directory home) {number : Nat} {content : Bytes}
    (file : host.disk.node? (home ++ [fileName]) = some (.file number content))
    (unheld : number ∉ host.held) : ∃ lock, (host.prepareDirectory directory).1 = .ok lock := by
  obtain ⟨readable, left, enters⟩ := Disk.exists_enters tree lockable.located lockable.dir
  rw [prepareDirectory, Disk.makeDirectories_of_enters tree readable enters]
  have taken := DirectoryLock.acquire_of_file tree lockable file host.held host.pid
  rw [if_neg (mt List.contains_iff_mem.1 unheld)] at taken
  simp only [acquire, taken]
  exact ⟨_, rfl⟩

/-- A store that is opened is one in memory, or the one of a file on the disk. -/
theorem openStore_ok {backend : Backend} (opened : host.openStore directory kind = .ok backend) :
    kind = .memory ∧ backend = .inMemory ∨
      kind = .file ∧ backend.home = some directory ∧ backend.disk = host.disk := by
  cases kind with
  | memory => exact .inl ⟨rfl, (Except.ok.inj opened).symm⟩
  | file =>
    unfold openStore at opened
    dsimp only at opened
    split at opened
    · rename_i found
      obtain rfl := Except.ok.inj opened
      unfold Backend.openFile at found
      split at found
      · obtain rfl := Except.ok.inj found
        exact .inr ⟨rfl, rfl, rfl⟩
      · cases found
    · cases opened
  | rocksDb => cases opened

/-- Opening that fails touches the disk at most: the lock files are spared, the ways stay, and the
lock is not blamed. -/
theorem openWith_error {e : LedgerError} (tree : host.disk.IsTree)
    (failed : host.openWith name directory kind lock = (.error e, after)) :
    ∃ disk, after = { host with disk } ∧ host.disk.Spares fileName disk ∧
      host.disk.KeepsWays disk ∧ ∀ reason, e ≠ .databaseLocked reason := by
  unfold openWith at failed
  split at failed
  · rename_i e' unopened
    obtain ⟨same, rfl⟩ := Prod.mk.inj failed
    obtain rfl := Except.error.inj same
    refine ⟨host.disk, rfl, .refl tree _, .refl _, ?_⟩
    rintro reason rfl
    cases kind with
    | memory => cases unopened
    | file =>
      unfold openStore at unopened
      dsimp only at unopened
      split at unopened <;> cases unopened
    | rocksDb => cases unopened
  · rename_i backend opened
    split at failed
    · rename_i e' ledger refused
      obtain ⟨same, rfl⟩ := Prod.mk.inj failed
      obtain rfl := Except.error.inj same
      rcases openStore_ok opened with ⟨rfl, rfl⟩ | ⟨rfl, -, disk⟩
      · exact ⟨host.disk, rfl, .refl tree _, .refl _,
          (Ledger.openOn_error Disk.isTree_empty refused).2⟩
      · rw [← disk] at tree ⊢
        have opening := Ledger.spares_openOn tree .zero
        rw [refused] at opening
        obtain ⟨kept, other⟩ := Ledger.openOn_error tree refused
        exact ⟨_, rfl, opening, kept, other⟩
    · cases (Prod.mk.inj failed).1

/-- Opening that succeeds adds a ledger with the lock; a file keeps it if its kind says so. -/
theorem openWith_ok (tree : host.disk.IsTree)
    (opens : host.openWith name directory kind lock = (.ok (), after)) : ∃ ledger disk,
      after = { host with disk, ledgers := replace name ⟨ledger, lock⟩ host.ledgers } ∧
      host.disk.Spares fileName disk ∧ ledger.backend.home.isSome = kind.isPersistent := by
  unfold openWith at opens
  split at opens
  · cases (Prod.mk.inj opens).1
  · rename_i backend opened
    split at opens
    · cases (Prod.mk.inj opens).1
    · rename_i ledger answered
      obtain ⟨-, rfl⟩ := Prod.mk.inj opens
      have home : ledger.backend.home = backend.home :=
        (Ledger.sameAround_of_transact answered).home
      rcases openStore_ok opened with ⟨rfl, rfl⟩ | ⟨rfl, file, disk⟩
      · exact ⟨ledger, _, rfl, .refl tree _, congrArg Option.isSome home⟩
      · rw [← disk] at tree ⊢
        have opening := Ledger.spares_openOn tree .zero
        rw [answered] at opening
        exact ⟨ledger, _, rfl, opening, by rw [home, file]; rfl⟩

/-- A ledger in memory is opened, whatever else there is. -/
theorem openWith_memory (host : Host) (name : String) (directory : Path)
    (lock : Option DirectoryLock) : ∃ ledger, host.openWith name directory .memory lock =
      (.ok (), { host with ledgers := replace name ⟨ledger, lock⟩ host.ledgers }) := by
  have opens : (Ledger.openOn .inMemory .zero).1 = .ok () := rfl
  refine ⟨(Ledger.openOn .inMemory .zero).2, ?_⟩
  simp only [openWith, openStore]
  split
  · rename_i refused
    rw [refused] at opens
    cases opens
  · rename_i answered
    rw [answered]
    rfl

end Host

end IngestLedger
