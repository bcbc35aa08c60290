import IngestLedger.Proofs.Sites

/-!
# One ledger in a directory

A directory whose lock file is not a link is open to one ledger at a time. Opening another one is
refused for the lock exactly as long as a ledger is open there, whatever happens meanwhile; opening
that fails for anything else gives the lock back, and no failure touches the ledgers that are open
or their locks. A link under the name of the lock file can be pointed at the file that a store
writes and moves away, and then the lock does not keep a second ledger out.

Main definitions:

* `Site.IsOccupied`: a ledger is open in the directory that a path leads to.
* `Site.AdmitsOne`: one ledger is let into a directory at a time.

Main statements:

* `Site.databaseLocked_await_iff`: when waiting for a lock is in vain.
* `Site.attempt_error`: an attempt that fails gives the lock back.
* `Site.admitsOne_run`: hosts let one ledger into a directory at a time.
-/

namespace IngestLedger

namespace Site

open DirectoryLock (fileName)

variable {site : Site} {name : String} {directory : Path} {kind : StoreKind} {home : Place}

/-! ### Attempts -/

/-- A ledger is open that was opened in the directory that a path leads to. -/
def IsOccupied (site : Site) (directory : Path) : Prop :=
  ∃ name home, site.home? name = some home ∧ site.host.disk.locate directory = .ok home

/-- The lock of an occupied directory is held by someone else. -/
theorem acquire_of_isOccupied (h : site.IsConsistent)
    (lockable : site.host.disk.IsLockable directory home) (occupied : site.IsOccupied directory) :
    ∃ pid path, site.host.acquire directory = (.error (.alreadyLocked pid path), site.host) := by
  obtain ⟨name, home', here, leads⟩ := occupied
  obtain rfl := Except.ok.inj (leads.symm.trans lockable.located)
  obtain ⟨entry, inside, rfl, holds⟩ := h.listed name home' here
  obtain ⟨lock, holds⟩ := Option.isSome_iff_exists.1 holds
  obtain ⟨home, same, file⟩ := h.stands entry inside lock holds
  obtain rfl := Option.some.inj (same.symm.trans here)
  obtain ⟨content, file⟩ := file lockable.isEnd.2
  have held := h.mem_held_iff.2 ⟨entry, inside, lock, holds, rfl⟩
  rw [Host.acquire, DirectoryLock.acquire_of_file h.tree lockable file,
    if_pos (List.contains_iff_mem.2 held)]
  exact ⟨_, _, rfl⟩

/-- No ledger is open in a directory whose lock file is a link. -/
def HasPlainHomes (site : Site) : Prop :=
  ∀ name home, site.home? name = some home → site.host.disk.HasPlainLock home

/-- The lock of a directory that is not occupied is taken. -/
theorem acquire_of_not_isOccupied (h : site.IsConsistent) (plain : site.HasPlainHomes)
    (lockable : site.host.disk.IsLockable directory home) (free : ¬ site.IsOccupied directory) :
    ∃ lock host, site.host.acquire directory = (.ok lock, host) := by
  cases here : site.host.disk.node? (home ++ [fileName]) with
  | none =>
    rw [Host.acquire, DirectoryLock.acquire_of_absent h.tree lockable here]
    exact ⟨_, _, rfl⟩
  | some node =>
    obtain ⟨number, content, rfl⟩ := lockable.free node here
    have unheld : ¬ site.host.held.contains number = true := by
      intro held
      obtain ⟨entry, inside, lock, holds, rfl⟩ := h.mem_held_iff.1 (List.contains_iff_mem.1 held)
      obtain ⟨home', same, file⟩ := h.stands entry inside lock holds
      obtain ⟨content', file⟩ := file (plain _ _ same)
      obtain rfl := List.append_cancel_right (h.tree.unique file here)
      exact free ⟨entry.1, home', same, lockable.located⟩
    rw [Host.acquire, DirectoryLock.acquire_of_file h.tree lockable here, if_neg unheld]
    exact ⟨_, _, rfl⟩

/-- Opening under a lock gives the answer of the host. -/
theorem openWith_eq (site : Site) (name : String) (directory : Path) (kind : StoreKind)
    (lock : Option DirectoryLock) :
    (site.openWith name directory kind lock).1 = (site.host.openWith name directory kind lock).1 ∧
      (site.openWith name directory kind lock).2.host =
        (site.host.openWith name directory kind lock).2 := by
  unfold openWith
  split
  · rename_i failed
    rw [failed]
    exact ⟨rfl, rfl⟩
  · rename_i opens
    rw [opens]
    exact ⟨rfl, rfl⟩

/-- An attempt to open a ledger in an occupied directory is refused for its lock. -/
theorem attempt_of_isOccupied (h : site.IsConsistent) (persistent : kind.isPersistent = true)
    (lockable : site.host.disk.IsLockable directory home) (occupied : site.IsOccupied directory) :
    ∃ reason, (site.attempt name directory kind).1 = .error (.databaseLocked reason) := by
  obtain ⟨pid, path, refused⟩ := acquire_of_isOccupied h lockable occupied
  rw [attempt, if_pos persistent, refused]
  exact ⟨_, rfl⟩

/-- Once the lock is taken nothing is put down to it. -/
theorem attempt_of_acquire (h : site.IsConsistent) (persistent : kind.isPersistent = true)
    {lock : DirectoryLock} {host : Host} (taken : site.host.acquire directory = (.ok lock, host))
    (reason : String) : (site.attempt name directory kind).1 ≠ .error (.databaseLocked reason) := by
  obtain ⟨home, disk, rfl, takes⟩ := h.exists_takes taken
  intro blamed
  rw [attempt, if_pos persistent, taken] at blamed
  have answer := (openWith_eq (site.onDisk disk) name directory kind (some lock)).1
  obtain ⟨-, -, -, -, other⟩ :=
    Host.openWith_error takes.spares.tree (Prod.ext (answer.symm.trans blamed) rfl)
  exact other reason rfl

theorem attempt_memory (site : Site) (name : String) (directory : Path) : ∃ ledger,
    site.attempt name directory .memory = (.ok (), ⟨{ site.host with
      ledgers := Host.replace name ⟨ledger, none⟩ site.host.ledgers },
      Function.update site.home? name none⟩) := by
  obtain ⟨ledger, opens⟩ := Host.openWith_memory site.host name directory none
  refine ⟨ledger, ?_⟩
  rw [attempt, if_neg (by decide), openWith, opens]
  rfl

/-- An attempt that fails touches the disk at most. When it was not for the lock, the directory can
be locked again, unless its lock file is a link. -/
theorem attempt_error (h : site.IsConsistent) {e : LedgerError} {after : Site}
    (failed : site.attempt name directory kind = (.error e, after)) :
    ∃ disk, after = site.onDisk disk ∧ ((∀ reason, e ≠ .databaseLocked reason) →
      (∀ home, disk.locate directory = .ok home → disk.HasPlainLock home) →
      ∃ lock, (after.host.prepareDirectory directory).1 = .ok lock) := by
  unfold attempt at failed
  split at failed
  · split at failed
    · rename_i refused
      obtain ⟨answer, rfl⟩ := Prod.mk.inj failed
      obtain rfl := Except.error.inj answer
      refine ⟨site.host.disk, by rw [Host.acquire_error refused]; rfl, fun other => ?_⟩
      exact absurd rfl (other _)
    · rename_i lock host taken
      obtain ⟨home, disk, rfl, takes⟩ := h.exists_takes taken
      change (site.onDisk disk).openWith name directory kind (some lock) = _ at failed
      unfold openWith at failed
      split at failed
      · rename_i unopened
        obtain ⟨disk', rfl, spares, kept, -⟩ := Host.openWith_error takes.spares.tree unopened
        obtain ⟨-, rfl⟩ := Prod.mk.inj failed
        refine ⟨disk', rfl, fun _ plain => ?_⟩
        have leads := Disk.locate_of_keepsWays takes.spares.tree takes.located takes.dir kept
        obtain ⟨lockable, content, file⟩ :=
          takes.stands (spares.hasPlainLock_iff.1 (plain home leads))
        obtain ⟨content', file⟩ := spares.file file
        exact Host.exists_prepareDirectory_ok spares.tree
          (lockable.mono takes.spares.tree kept file) file takes.unheld
      · cases (Prod.mk.inj failed).1
  · rename_i memory
    obtain rfl := StoreKind.eq_memory memory
    obtain ⟨ledger, opens⟩ := attempt_memory site name directory
    rw [attempt, if_neg memory] at opens
    cases (Prod.mk.inj (opens.symm.trans failed)).1

/-! ### Waiting for the lock -/

@[simp] theorem run_append (site : Site) (first second : List HostEvent) :
    site.run (first ++ second) = (site.run first).run second :=
  List.foldl_append

/-- Waiting ends with an attempt, after some of what happens meanwhile. -/
theorem exists_await (site : Site) (name : String) (directory : Path) (kind : StoreKind)
    (waits : List (List HostEvent)) : ∃ done, done <+: waits ∧
      site.await name directory kind waits =
        (site.run done.flatten).attempt name directory kind := by
  induction waits generalizing site with
  | nil => exact ⟨[], List.nil_prefix, rfl⟩
  | cons between waits ih =>
    rw [await]
    split
    · rename_i refused
      obtain rfl := Host.acquire_error refused
      obtain ⟨done, before, same⟩ := ih (site.run between)
      refine ⟨between :: done, (List.prefix_cons_inj between).2 before, same.trans ?_⟩
      rw [List.flatten_cons, run_append]
    · exact ⟨[], List.nil_prefix, rfl⟩

/-- Waiting ends with the lock held by someone else exactly when the directory is occupied whenever
it is looked at. -/
theorem databaseLocked_await_iff (h : site.IsConsistent) (persistent : kind.isPersistent = true)
    {waits : List (List HostEvent)}
    (plain : ∀ look ∈ waits.scanl run site, look.HasPlainHomes)
    (lockable : ∀ look ∈ waits.scanl run site, ∃ home,
      look.host.disk.IsLockable directory home) :
    (∃ reason, (site.await name directory kind waits).1 = .error (.databaseLocked reason)) ↔
      ∀ look ∈ waits.scanl run site, look.IsOccupied directory := by
  induction waits generalizing site with
  | nil =>
    simp only [List.scanl_nil, List.mem_singleton, forall_eq] at plain lockable ⊢
    obtain ⟨home, lockable⟩ := lockable
    refine ⟨?_, attempt_of_isOccupied h persistent lockable⟩
    rintro ⟨reason, blamed⟩
    by_contra free
    obtain ⟨lock, host, taken⟩ := acquire_of_not_isOccupied h plain lockable free
    exact attempt_of_acquire h persistent taken reason blamed
  | cons between waits ih =>
    simp only [List.scanl_cons, List.mem_cons, forall_eq_or_imp] at plain lockable ⊢
    obtain ⟨home, here⟩ := lockable.1
    by_cases occupied : site.IsOccupied directory
    · obtain ⟨pid, path, refused⟩ := acquire_of_isOccupied h here occupied
      rw [await, refused, and_iff_right occupied]
      exact ih (h.run between).1 plain.2 lockable.2
    · obtain ⟨lock, host, taken⟩ := acquire_of_not_isOccupied h plain.1 here occupied
      rw [await, taken]
      refine ⟨?_, fun both => absurd both.1 occupied⟩
      rintro ⟨reason, blamed⟩
      exact absurd blamed (attempt_of_acquire h persistent taken reason)

/-- When nothing happens during the wait, opening is what a host does. -/
theorem openLedger_of_idle (site : Site) (name : String) (directory : Path) (kind : StoreKind)
    {waits : List (List HostEvent)} (idle : ∀ between ∈ waits, between = []) :
    (site.openLedger name directory kind waits).1 =
        (site.host.openLedger name directory kind).1 ∧
      (site.openLedger name directory kind waits).2.host =
        (site.host.openLedger name directory kind).2 := by
  have waited : ∀ site : Site,
      site.await name directory kind waits = site.attempt name directory kind := by
    intro site
    obtain ⟨done, before, same⟩ := site.exists_await name directory kind waits
    have nothing : done.flatten = [] :=
      List.flatten_eq_nil_iff.2 fun between inside => idle between (before.subset inside)
    rwa [nothing] at same
  unfold openLedger Host.openLedger
  split
  · rename_i persistent
    unfold Host.prepareDirectory
    cases made : site.host.disk.makeDirectories directory with
    | mk result disk =>
      cases result with
      | error e => exact ⟨rfl, rfl⟩
      | ok _ =>
        simp only [waited, attempt, if_pos persistent]
        cases taken : (site.onDisk disk).host.acquire directory with
        | mk result host =>
          change Host.acquire { site.host with disk } directory = _ at taken
          rw [taken]
          cases result with
          | error e => exact ⟨rfl, rfl⟩
          | ok lock => exact openWith_eq { site.onDisk disk with host } name directory kind lock
  · rename_i memory
    rw [attempt, if_neg memory]
    exact site.openWith_eq name directory kind none

theorem exists_run_openLedger (site : Site) (name : String) (directory : Path) (kind : StoreKind)
    (waits : List (List HostEvent)) :
    ∃ events, (site.openLedger name directory kind waits).2 = site.run events := by
  unfold openLedger
  split
  · split
    · rename_i made
      refine ⟨[.makeDirectories directory], ?_⟩
      show _ = site.onDisk (site.host.disk.makeDirectories directory).2
      rw [made]
    · rename_i disk made
      obtain ⟨done, -, same⟩ := (site.onDisk disk).exists_await name directory kind waits
      refine ⟨.makeDirectories directory :: (done.flatten ++ [.attempt name directory kind]), ?_⟩
      show _ = (site.onDisk (site.host.disk.makeDirectories directory).2).run _
      rw [same, made, run_append]
      rfl
  · exact ⟨[.attempt name directory kind], rfl⟩

/-! ### One ledger in a directory -/

/-- Opening ledgers lets one into a directory at a time, and no failure holds on to a lock. What is
said of a directory with a lock supposes that the lock file there is not a link. -/
structure AdmitsOne (site : Site) : Prop where
  /-- Without events during the wait, opening is what the host does. -/
  immediate : ∀ name directory kind waits, (∀ between ∈ waits, between = []) →
    (site.openLedger name directory kind waits).1 = (site.host.openLedger name directory kind).1 ∧
      (site.openLedger name directory kind waits).2.host =
        (site.host.openLedger name directory kind).2
  /-- Opening, with what happens during the wait, is made of events. -/
  made : ∀ name directory kind waits,
    ∃ events, (site.openLedger name directory kind waits).2 = site.run events
  /-- A ledger that a file keeps has a lock, and a directory that it was opened in. -/
  homed : ∀ entry ∈ site.host.ledgers, entry.2.ledger.backend.home.isSome →
    entry.2.lock.isSome ∧ ∃ home, site.home? entry.1 = some home
  /-- Ledgers that were opened in one directory are one. -/
  alone : ∀ first ∈ site.host.ledgers, ∀ second ∈ site.host.ledgers, ∀ home,
    site.home? first.1 = some home → site.home? second.1 = some home →
      site.host.disk.HasPlainLock home → first = second
  /-- Where a lock file can stand, opening is refused for the lock exactly when a ledger is open in
  the directory whenever it is looked at. -/
  refused_iff : ∀ name directory kind waits disk, kind.isPersistent = true →
    site.host.disk.makeDirectories directory = (.ok (), disk) →
    (∀ look ∈ waits.scanl run (site.onDisk disk), look.HasPlainHomes) →
    (∀ look ∈ waits.scanl run (site.onDisk disk), ∃ home,
      look.host.disk.IsLockable directory home) →
    ((∃ reason,
        (site.openLedger name directory kind waits).1 = .error (.databaseLocked reason)) ↔
      ∀ look ∈ waits.scanl run (site.onDisk disk), look.IsOccupied directory)
  /-- Opening that fails opens and closes no ledger, and gives back no lock. -/
  kept : ∀ name directory kind waits e after,
    site.openLedger name directory kind waits = (.error e, after) → ∃ done, done <+: waits ∧
      after.host.ledgers =
        ((site.step (.makeDirectories directory)).run done.flatten).host.ledgers ∧
      after.home? = ((site.step (.makeDirectories directory)).run done.flatten).home?
  /-- Opening that fails with the lock taken leaves a directory whose lock can be taken. -/
  freed : ∀ name directory kind waits e after,
    site.openLedger name directory kind waits = (.error e, after) →
    (site.host.disk.makeDirectories directory).1 = .ok () →
    (∀ reason, e ≠ .databaseLocked reason) →
    (∀ home, after.host.disk.locate directory = .ok home →
      after.host.disk.HasPlainLock home) →
    ∃ lock, (after.host.prepareDirectory directory).1 = .ok lock
  /-- A ledger in memory is always opened, without a lock. -/
  memory : ∀ name directory waits, ∃ ledger,
    site.openLedger name directory .memory waits =
      (.ok (), ⟨{ site.host with
        ledgers := Host.replace name ⟨ledger, none⟩ site.host.ledgers },
        Function.update site.home? name none⟩)

theorem IsConsistent.alone_of_home (h : site.IsConsistent) {first second : String × OpenLedger}
    (inside : first ∈ site.host.ledgers) (inside' : second ∈ site.host.ledgers)
    (here : site.home? first.1 = some home) (here' : site.home? second.1 = some home)
    (plain : site.host.disk.HasPlainLock home) : first = second := by
  -- both have a lock, and it is of the one file in the directory
  have locked : ∀ entry ∈ site.host.ledgers, site.home? entry.1 = some home →
      ∃ lock content, entry.2.lock = some lock ∧
        site.host.disk.node? (home ++ [fileName]) = some (.file lock.file content) := by
    intro entry inside here
    obtain ⟨other, inside', same, holds⟩ := h.listed entry.1 home here
    obtain rfl := h.eq_of_name inside' inside same
    obtain ⟨lock, holds⟩ := Option.isSome_iff_exists.1 holds
    obtain ⟨home', there, file⟩ := h.stands other inside lock holds
    obtain rfl := Option.some.inj (there.symm.trans here)
    obtain ⟨content, file⟩ := file plain
    exact ⟨lock, content, holds, file⟩
  obtain ⟨lock, content, holds, file⟩ := locked first inside here
  obtain ⟨lock', content', holds', file'⟩ := locked second inside' here'
  have same := Option.some.inj (file.symm.trans file')
  exact h.distinct first inside second inside' lock lock' holds holds' (Node.file.inj same).1

/-- Opening that fails fails at the directory or at an attempt. -/
theorem exists_of_openLedger_error (h : site.IsConsistent) {waits : List (List HostEvent)}
    {e : LedgerError} {after : Site}
    (failed : site.openLedger name directory kind waits = (.error e, after)) :
    ((site.host.disk.makeDirectories directory).1 ≠ .ok () ∧
      after = site.step (.makeDirectories directory)) ∨
    ∃ done disk, done <+: waits ∧
      after = ((site.step (.makeDirectories directory)).run done.flatten).onDisk disk ∧
      ((∀ reason, e ≠ .databaseLocked reason) →
        (∀ home, disk.locate directory = .ok home → disk.HasPlainLock home) →
        ∃ lock, (after.host.prepareDirectory directory).1 = .ok lock) := by
  unfold openLedger at failed
  split at failed
  · split at failed
    · rename_i made
      obtain ⟨-, rfl⟩ := Prod.mk.inj failed
      exact .inl ⟨by simp [made], by simp [step, made]⟩
    · rename_i disk made
      have directories : site.step (.makeDirectories directory) = site.onDisk disk := by
        simp [step, made]
      obtain ⟨done, before, same⟩ := (site.onDisk disk).exists_await name directory kind waits
      rw [directories]
      obtain ⟨disk', rfl, again⟩ := attempt_error
        ((directories ▸ (h.step (.makeDirectories directory)).1).run done.flatten).1
        (same.symm.trans failed)
      exact .inr ⟨done, disk', before, rfl, again⟩
  · rename_i memory
    obtain rfl := StoreKind.eq_memory memory
    obtain ⟨ledger, opens⟩ := attempt_memory site name directory
    cases (Prod.mk.inj (opens.symm.trans failed)).1

theorem IsConsistent.admitsOne (h : site.IsConsistent) : site.AdmitsOne where
  immediate _ _ _ _ idle := site.openLedger_of_idle _ _ _ idle
  made := site.exists_run_openLedger
  homed entry inside file := by
    have holds := (h.locked entry inside).trans file
    obtain ⟨lock, here⟩ := Option.isSome_iff_exists.1 holds
    obtain ⟨home, same, -⟩ := h.stands entry inside lock here
    exact ⟨holds, home, same⟩
  alone first inside second inside' home := h.alone_of_home inside inside'
  refused_iff name directory kind waits disk persistent made plain lockable := by
    have directories := (h.step (.makeDirectories directory)).1
    simp only [Site.step, made] at directories
    rw [openLedger, if_pos persistent, made]
    exact databaseLocked_await_iff directories persistent plain lockable
  kept name directory kind waits e after failed := by
    rcases exists_of_openLedger_error h failed with ⟨-, rfl⟩ | ⟨done, disk, before, rfl, -⟩
    · exact ⟨[], List.nil_prefix, rfl, rfl⟩
    · exact ⟨done, before, rfl, rfl⟩
  freed name directory kind waits e after failed made other plain := by
    rcases exists_of_openLedger_error h failed with ⟨unmade, -⟩ | ⟨done, disk, -, rfl, again⟩
    · exact absurd made unmade
    · exact again other plain
  memory name directory waits := site.attempt_memory name directory

/-- Whatever happens on a host, it lets one ledger into a directory at a time, as long as the lock
file there is not a link; and nothing makes it one. -/
theorem admitsOne_run {disk : Disk} (tree : disk.IsTree) (pid : UInt32)
    (events : List HostEvent) : ((idle disk pid).run events).AdmitsOne ∧
      ∀ home, ((idle disk pid).run events).host.disk.HasPlainLock home ↔
        disk.HasPlainLock home := by
  obtain ⟨consistent, spares⟩ := (IsConsistent.idle tree pid).run events
  exact ⟨consistent.admitsOne, fun home => spares.hasPlainLock_iff⟩

end Site

namespace Site.TakenDirectory

/-- A site on which a ledger is open. -/
def site : Site :=
  (idle .empty 7).run [.makeDirectories ["data"], .attempt "first" ["data"] .file]

/-- The second ledger in a directory is refused. -/
theorem refused_second : Disk.empty.IsTree ∧ ∃ reason,
    (site.openLedger "second" ["data"] .file []).1 = .error (.databaseLocked reason) := by
  obtain ⟨admits, plain⟩ := admitsOne_run Disk.isTree_empty 7
    [.makeDirectories ["data"], .attempt "first" ["data"] .file]
  have made : site.host.disk.makeDirectories ["data"] = (.ok (), site.host.disk) := by
    decide +kernel
  have file : site.host.disk.node? ["data", DirectoryLock.fileName] =
      some (.file 0 (DirectoryLock.contentFor 7)) := by decide +kernel
  have lockable : site.host.disk.IsLockable ["data"] ["data"] :=
    ⟨by decide +kernel, by decide +kernel, by decide +kernel,
      fun node here => ⟨_, _, Option.some.inj (here.symm.trans file)⟩⟩
  refine ⟨Disk.isTree_empty, (admits.refused_iff "second" ["data"] .file [] _ rfl made ?_ ?_).2 ?_⟩
  · intro look inside name home here
    obtain rfl := List.mem_singleton.1 inside
    exact (plain home).2 fun target => by simp [Disk.node?, Disk.empty]
  · intro look inside
    obtain rfl := List.mem_singleton.1 inside
    exact ⟨_, lockable⟩
  · intro look inside
    obtain rfl := List.mem_singleton.1 inside
    exact ⟨"first", ["data"], by decide +kernel, lockable.located⟩

end Site.TakenDirectory

namespace Site.DanglingLock

/-- A directory whose lock file leads to where a store is written beside its file. -/
def disk : Disk :=
  (Disk.empty.put ["d"] .directory).put ["d", "LOCK"] (.link ["d", "ledger.tmp"])

/-- A host with nothing open. -/
def host : Host := (idle disk 7).host

/-- Two ledgers are open in one directory: the first store takes its place with the file that is
locked, so the second lock is of another one. -/
theorem opened_twice : disk.IsTree ∧ (host.openLedger "0" ["d"] .file).1 = .ok () ∧
    ((host.openLedger "0" ["d"] .file).2.openLedger "1" ["d"] .file).1 = .ok () ∧
    ((host.openLedger "0" ["d"] .file).2.openLedger "1" ["d"] .file).2.ledgers.map
        (fun entry => (entry.1, entry.2.ledger.backend.home, entry.2.lock.isSome)) =
      [("1", some ["d"], true), ("0", some ["d"], true)] := by
  have linked : (Disk.empty.makeDirectories ["d"]).2.link ["d", "ledger.tmp"] ["d", "LOCK"] =
      .ok disk := by decide +kernel
  exact ⟨(Disk.isTree_empty.makeDirectories ["d"]).link linked, by decide +kernel,
    by decide +kernel, by decide +kernel⟩

end Site.DanglingLock

end IngestLedger
