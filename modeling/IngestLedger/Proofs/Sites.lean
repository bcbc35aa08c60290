import IngestLedger.Proofs.Openings
import Mathlib.Data.List.Nodup
import Mathlib.Logic.Function.Basic

/-!
# Hosts on which ledgers are opened and closed

On a host ledgers are opened, used and closed, directories are made and files are written. A site is
a host that remembers for each open ledger the directory that it was opened in. Opening may wait for
the lock of the directory, and other things happen meanwhile; so opening is taken apart into making
the directory and attempts, each of which looks at the lock once.

Whatever happens, each open ledger that a file keeps has a lock, no two locks are of one file, and a
lock is of the file in the directory of its ledger, unless the lock file there is a link.

Main definitions:

* `Site`, `HostEvent`: a host with the directories of its ledgers, and what happens on it.
* `Site.openLedger`: open a ledger, with what happens while it waits for the lock.
* `Site.IsConsistent`: what holds of the ledgers and their locks between events.

Main statements:

* `Site.IsConsistent.exists_takes`: what it means to take a lock.
* `Site.IsConsistent.step`, `Site.IsConsistent.run`: events leave a site consistent.
-/

namespace IngestLedger

/-! ### Hosts on which something happens -/

/-- A host, with the directories that its ledgers with a lock were opened in. -/
structure Site where
  host : Host
  home? : String → Option Place

/-- What happens on a host. Opening a ledger is making its directory and then attempting to take the
lock and to open the store, once or several times. -/
inductive HostEvent where
  | makeDirectories (directory : Path)
  | attempt (name : String) (directory : Path) (kind : StoreKind)
  | close (name : String)
  | call (name : String) (now : Timestamp) (call : Call)
  | write (path : Path) (content : Bytes)

namespace Site

/-- A host without an open ledger. -/
def idle (disk : Disk) (pid : UInt32) : Site := ⟨⟨disk, [], [], pid⟩, fun _ => none⟩

/-- The site with another disk. -/
def onDisk (site : Site) (disk : Disk) : Site := { site with host := { site.host with disk } }

/-- Open a ledger under a lock, and note where. -/
def openWith (site : Site) (name : String) (directory : Path) (kind : StoreKind)
    (lock : Option DirectoryLock) : Except LedgerError Unit × Site :=
  match site.host.openWith name directory kind lock with
  | (.error e, host) => (.error e, { site with host })
  | (.ok (), host) =>
    (.ok (), ⟨host, Function.update site.home? name
      (lock.bind fun _ => (site.host.disk.locate directory).toOption)⟩)

/-- Take the lock of a directory that was made, if the store needs one, and open a ledger there. -/
def attempt (site : Site) (name : String) (directory : Path) (kind : StoreKind) :
    Except LedgerError Unit × Site :=
  if kind.isPersistent then
    match site.host.acquire directory with
    | (.error e, host) => (.error e.toLedgerError, { site with host })
    | (.ok lock, host) => openWith { site with host } name directory kind (some lock)
  else site.openWith name directory kind none

/-- What one event makes of a site. -/
def step (site : Site) : HostEvent → Site
  | .makeDirectories directory => site.onDisk (site.host.disk.makeDirectories directory).2
  | .attempt name directory kind => (site.attempt name directory kind).2
  | .close name => ⟨(site.host.close name).2, Function.update site.home? name none⟩
  | .call name now call =>
    { site with host := (site.host.use name fun ledger => ledger.perform now call).2 }
  | .write path content =>
    match site.host.disk.write path content with
    | .ok disk => site.onDisk disk
    | .error _ => site

/-- What some events make of a site, one after another. -/
def run (site : Site) (events : List HostEvent) : Site := events.foldl step site

/-- Attempt to open a ledger until the lock is not held by someone else, with what happens between
two attempts, or until there is no time left. -/
def await (site : Site) (name : String) (directory : Path) (kind : StoreKind) :
    List (List HostEvent) → Except LedgerError Unit × Site
  | [] => site.attempt name directory kind
  | between :: waits =>
    match site.host.acquire directory with
    | (.error (.alreadyLocked ..), host) =>
      (run { site with host } between).await name directory kind waits
    | _ => site.attempt name directory kind

/-- Open a ledger under a name, with what happens while it waits for the lock. -/
def openLedger (site : Site) (name : String) (directory : Path) (kind : StoreKind)
    (waits : List (List HostEvent)) : Except LedgerError Unit × Site :=
  if kind.isPersistent then
    match site.host.disk.makeDirectories directory with
    | (.error e, disk) =>
      (.error (.database ("Failed to create data directory " ++ directory.text ++ ": " ++
        e.message)), site.onDisk disk)
    | (.ok (), disk) => (site.onDisk disk).await name directory kind waits
  else site.attempt name directory kind

open DirectoryLock (fileName)

variable {site : Site} {name : String} {directory : Path} {kind : StoreKind} {disk : Disk}
  {home : Place}

/-! ### What holds between events -/

/-- Each ledger that a file keeps has a lock, which is of the file in its directory unless the lock
file there is a link; no two locks are of one file. -/
structure IsConsistent (site : Site) : Prop where
  tree : site.host.disk.IsTree
  alone : site.host.locks = []
  names : (site.host.ledgers.map Prod.fst).Nodup
  locked : ∀ entry ∈ site.host.ledgers,
    entry.2.lock.isSome = entry.2.ledger.backend.home.isSome
  numbered : ∀ entry ∈ site.host.ledgers, ∀ lock, entry.2.lock = some lock →
    lock.file < site.host.disk.filesMade
  stands : ∀ entry ∈ site.host.ledgers, ∀ lock, entry.2.lock = some lock →
    ∃ home, site.home? entry.1 = some home ∧ (site.host.disk.HasPlainLock home →
      ∃ content, site.host.disk.node? (home ++ [fileName]) = some (.file lock.file content))
  listed : ∀ name home, site.home? name = some home →
    ∃ entry ∈ site.host.ledgers, entry.1 = name ∧ entry.2.lock.isSome
  distinct : ∀ first ∈ site.host.ledgers, ∀ second ∈ site.host.ledgers, ∀ lock lock',
    first.2.lock = some lock → second.2.lock = some lock' → lock.file = lock'.file →
      first = second

namespace IsConsistent

theorem idle {disk : Disk} (tree : disk.IsTree) (pid : UInt32) :
    (Site.idle disk pid).IsConsistent where
  tree
  alone := rfl
  names := List.nodup_nil
  locked _ inside := absurd inside List.not_mem_nil
  numbered _ inside := absurd inside List.not_mem_nil
  stands _ inside := absurd inside List.not_mem_nil
  listed _ _ here := absurd here (Option.some_ne_none _).symm
  distinct _ inside := absurd inside List.not_mem_nil

/-- Ledgers of one name are one. -/
theorem eq_of_name (h : site.IsConsistent) {first second : String × OpenLedger}
    (inside : first ∈ site.host.ledgers) (inside' : second ∈ site.host.ledgers)
    (same : first.1 = second.1) : first = second :=
  List.inj_on_of_nodup_map h.names inside inside' same

theorem onDisk (h : site.IsConsistent) (spares : site.host.disk.Spares fileName disk) :
    (site.onDisk disk).IsConsistent where
  tree := spares.tree
  alone := h.alone
  names := h.names
  locked := h.locked
  numbered entry inside lock here :=
    Nat.lt_of_lt_of_le (h.numbered entry inside lock here) spares.made
  stands entry inside lock here := by
    obtain ⟨home, same, file⟩ := h.stands entry inside lock here
    refine ⟨home, same, fun plain => ?_⟩
    obtain ⟨content, file⟩ := file (spares.hasPlainLock_iff.1 plain)
    exact spares.file file
  listed := h.listed
  distinct := h.distinct

/-- A ledger comes under a name; its lock, if it has one, is of a file that no other lock is of. -/
theorem enroll (h : site.IsConsistent) (name : String) (opened : OpenLedger)
    (place? : Option Place)
    (locked : opened.lock.isSome = opened.ledger.backend.home.isSome)
    (numbered : ∀ lock, opened.lock = some lock → lock.file < site.host.disk.filesMade)
    (stands : ∀ lock, opened.lock = some lock → ∃ home, place? = some home ∧
      (site.host.disk.HasPlainLock home → ∃ content,
        site.host.disk.node? (home ++ [fileName]) = some (.file lock.file content)))
    (listed : ∀ home, place? = some home → opened.lock.isSome)
    (apart : ∀ lock, opened.lock = some lock → ∀ entry ∈ site.host.ledgers, entry.1 ≠ name →
      ∀ lock', entry.2.lock = some lock' → lock'.file ≠ lock.file) :
    IsConsistent ⟨{ site.host with ledgers := Host.replace name opened site.host.ledgers },
      Function.update site.home? name place?⟩ where
  tree := h.tree
  alone := h.alone
  names := by
    refine List.nodup_cons.2 ⟨?_, Host.nodup_names_filter h.names _⟩
    simp
  locked entry inside := by
    rcases Host.mem_replace.1 inside with rfl | ⟨inside, -⟩
    · exact locked
    · exact h.locked entry inside
  numbered entry inside lock here := by
    rcases Host.mem_replace.1 inside with rfl | ⟨inside, -⟩
    · exact numbered lock here
    · exact h.numbered entry inside lock here
  stands entry inside lock here := by
    rcases Host.mem_replace.1 inside with rfl | ⟨inside, other⟩
    · obtain ⟨home, same, file⟩ := stands lock here
      exact ⟨home, by simp [same], file⟩
    · obtain ⟨home, same, file⟩ := h.stands entry inside lock here
      exact ⟨home, by simp [Function.update_of_ne other, same], file⟩
  listed other home here := by
    by_cases same : other = name
    · subst same
      simp only [Function.update_self] at here
      exact ⟨_, Host.mem_replace.2 (.inl rfl), rfl, listed home here⟩
    · simp only [Function.update_of_ne same] at here
      obtain ⟨entry, inside, rfl, holds⟩ := h.listed other home here
      exact ⟨entry, Host.mem_replace.2 (.inr ⟨inside, same⟩), rfl, holds⟩
  distinct first inside second inside' lock lock' here here' same := by
    rcases Host.mem_replace.1 inside with rfl | ⟨inside, other⟩ <;>
      rcases Host.mem_replace.1 inside' with rfl | ⟨inside', other'⟩
    · rfl
    · exact absurd same.symm (apart lock here second inside' other' lock' here')
    · exact absurd same (apart lock' here' first inside other lock here)
    · exact h.distinct first inside second inside' lock lock' here here' same

theorem close (h : site.IsConsistent) (name : String) :
    (site.step (.close name)).IsConsistent where
  tree := h.tree
  alone := h.alone
  names := Host.nodup_names_filter h.names _
  locked entry inside := h.locked entry (Host.mem_without.1 inside).1
  numbered entry inside := h.numbered entry (Host.mem_without.1 inside).1
  stands entry inside lock here := by
    obtain ⟨inside, other⟩ := Host.mem_without.1 inside
    obtain ⟨home, same, file⟩ := h.stands entry inside lock here
    exact ⟨home, by simp [step, Function.update_of_ne other, same], file⟩
  listed other home here := by
    by_cases same : other = name
    · simp [step, same] at here
    · simp only [step, Function.update_of_ne same] at here
      obtain ⟨entry, inside, rfl, holds⟩ := h.listed other home here
      exact ⟨entry, Host.mem_without.2 ⟨inside, same⟩, rfl, holds⟩
  distinct first inside second inside' :=
    h.distinct first (Host.mem_without.1 inside).1 second (Host.mem_without.1 inside').1

/-- A ledger that is open changes, and with it the disk, under the same lock. -/
theorem evolve (h : site.IsConsistent) {opened : OpenLedger}
    (inside : (name, opened) ∈ site.host.ledgers) {ledger : Ledger}
    (home : ledger.backend.home = opened.ledger.backend.home)
    (spares : site.host.disk.Spares fileName disk) :
    IsConsistent { site with host := { site.host with
      disk
      ledgers := Host.replace name { opened with ledger } site.host.ledgers } } := by
  have moved := h.onDisk spares
  have evolved := moved.enroll name { opened with ledger } ((site.onDisk disk).home? name)
    (by rw [home]; exact h.locked _ inside) (moved.numbered _ inside) (moved.stands _ inside)
    (fun place here => ?_) fun lock here entry inside' other lock' here' same => ?_
  · rwa [Function.update_eq_self] at evolved
  · obtain ⟨entry, inside', same, holds⟩ := h.listed name place here
    obtain rfl := h.eq_of_name inside' inside same
    exact holds
  · exact other (congrArg Prod.fst (h.distinct _ inside' _ inside _ _ here' here same))

/-- What an open ledger does spares the lock files, also its own. -/
theorem call (h : site.IsConsistent) (name : String) (now : Timestamp) (call : Call) :
    (site.step (.call name now call)).IsConsistent ∧
      site.host.disk.Spares fileName (site.step (.call name now call)).host.disk := by
  simp only [step, Host.use]
  split
  · exact ⟨h, .refl h.tree fileName⟩
  · rename_i opened found
    have inside : (name, opened) ∈ site.host.ledgers := Host.mem_of_lookup found
    split
    · -- a store that a file keeps is used with the disk as it is by now
      let current : Ledger :=
        { opened.ledger with backend := { opened.ledger.backend with disk := site.host.disk } }
      have spares := current.spares_perform h.tree now call
      exact ⟨h.evolve inside (current.home_perform now call) spares, spares⟩
    · have still := Disk.Spares.refl h.tree fileName
      exact ⟨h.evolve inside (opened.ledger.home_perform now call) still, still⟩

/-! ### Taking a lock -/

/-- The files whose locks are held are those of the open ledgers. -/
theorem mem_held_iff (h : site.IsConsistent) {number : Nat} : number ∈ site.host.held ↔
    ∃ entry ∈ site.host.ledgers, ∃ lock, entry.2.lock = some lock ∧ lock.file = number := by
  simp [Host.held, h.alone]

end IsConsistent

/-- What taking the lock of a directory makes of the disk of a site. Unless the lock file of the
directory is a link, the lock is of this file. -/
structure Takes (site : Site) (directory : Path) (lock : DirectoryLock) (home : Place)
    (disk : Disk) : Prop where
  spares : site.host.disk.Spares fileName disk
  located : disk.locate directory = .ok home
  dir : disk.node? home = some .directory
  numbered : lock.file < disk.filesMade
  unheld : lock.file ∉ site.host.held
  stands : disk.HasPlainLock home → disk.IsLockable directory home ∧
    ∃ content, disk.node? (home ++ [fileName]) = some (.file lock.file content)

namespace IsConsistent

theorem exists_takes (h : site.IsConsistent) {host : Host} {lock : DirectoryLock}
    (taken : site.host.acquire directory = (.ok lock, host)) :
    ∃ home disk, host = (site.onDisk disk).host ∧ site.Takes directory lock home disk := by
  obtain ⟨disk, takes, rfl⟩ := Host.exists_of_acquire taken
  obtain ⟨place, located, other, rfl, file, free⟩ := DirectoryLock.acquire_ok takes
  obtain ⟨home, leads, dir, plainly⟩ := DirectoryLock.exists_home_of_locate h.tree located other
  obtain ⟨parent, last, rfl, inside, ends⟩ := Disk.exists_parent_of_locate h.tree located other
  have spares := Disk.spares_putFile h.tree inside ends
    (DirectoryLock.contentFor site.host.pid) fileName
  have kept := Disk.keepsWays_putFile ends (DirectoryLock.contentFor site.host.pid)
  refine ⟨home, _, rfl, spares, Disk.locate_of_keepsWays h.tree leads dir kept,
    kept home .directory (by simp) dir, spares.tree.numbered file, ?_, fun plain => ?_⟩
  · rcases free with unheld | made
    · exact unheld
    · rw [made, h.mem_held_iff]
      rintro ⟨entry, inside, lock', here, same⟩
      exact absurd (h.numbered entry inside lock' here) (by rw [same]; exact Nat.lt_irrefl _)
  · obtain ⟨here, lockable⟩ := plainly (spares.hasPlainLock_iff.1 plain)
    rw [here] at file kept ⊢
    exact ⟨lockable.mono h.tree kept file, _, file⟩

/-- Whether it succeeds or not, an attempt to open a ledger leaves a site consistent and spares the
lock files. -/
theorem attempt (h : site.IsConsistent) (name : String) (directory : Path) (kind : StoreKind) :
    (site.attempt name directory kind).2.IsConsistent ∧
      site.host.disk.Spares fileName (site.attempt name directory kind).2.host.disk := by
  unfold Site.attempt
  split
  · rename_i persistent
    split
    · rename_i refused
      obtain rfl := Host.acquire_error refused
      exact ⟨h, .refl h.tree fileName⟩
    · rename_i lock host taken
      obtain ⟨home, disk, rfl, takes⟩ := h.exists_takes taken
      have locked := h.onDisk takes.spares
      have opened : Site.openWith { site with host := (site.onDisk disk).host } name directory kind
          (some lock) = (site.onDisk disk).openWith name directory kind (some lock) := rfl
      rw [opened]
      unfold Site.openWith
      split
      · rename_i failed
        obtain ⟨disk', rfl, spares, -⟩ := Host.openWith_error locked.tree failed
        exact ⟨locked.onDisk spares, takes.spares.trans spares⟩
      · rename_i opens
        obtain ⟨ledger, disk', rfl, spares, file⟩ := Host.openWith_ok locked.tree opens
        refine ⟨(locked.onDisk spares).enroll name ⟨ledger, some lock⟩ _ ?_ ?_ ?_
          (fun _ _ => rfl) ?_, takes.spares.trans spares⟩
        · rw [file, persistent]
          rfl
        · intro lock' same
          obtain rfl := Option.some.inj same
          exact Nat.lt_of_lt_of_le takes.numbered spares.made
        · intro lock' same
          obtain rfl := Option.some.inj same
          have noted : (disk.locate directory).toOption = some home := by
            rw [takes.located]
            rfl
          refine ⟨home, noted, fun plain => ?_⟩
          obtain ⟨-, content, here⟩ := takes.stands (spares.hasPlainLock_iff.1 plain)
          exact spares.file here
        · intro lock' same entry inside _ other here again
          obtain rfl := Option.some.inj same
          exact takes.unheld (h.mem_held_iff.2 ⟨entry, inside, other, here, again⟩)
  · rename_i memory
    unfold Site.openWith
    split
    · rename_i failed
      obtain ⟨disk, rfl, spares, -⟩ := Host.openWith_error h.tree failed
      exact ⟨h.onDisk spares, spares⟩
    · rename_i opens
      obtain ⟨ledger, disk, rfl, spares, file⟩ := Host.openWith_ok h.tree opens
      refine ⟨(h.onDisk spares).enroll name ⟨ledger, none⟩ _ ?_ nofun nofun nofun nofun, spares⟩
      rw [file, Bool.eq_false_iff.2 memory]
      rfl

/-! ### Runs -/

/-- An event leaves a site consistent and spares the lock files. -/
theorem step (h : site.IsConsistent) (event : HostEvent) : (site.step event).IsConsistent ∧
    site.host.disk.Spares fileName (site.step event).host.disk := by
  cases event with
  | makeDirectories directory =>
    have spares := Disk.spares_makeDirectories h.tree directory fileName
    exact ⟨h.onDisk spares, spares⟩
  | attempt name directory kind => exact h.attempt name directory kind
  | close name => exact ⟨h.close name, .refl h.tree fileName⟩
  | call name now call => exact h.call name now call
  | write path content =>
    simp only [Site.step]
    split
    · rename_i written
      have spares := Disk.spares_write h.tree written fileName
      exact ⟨h.onDisk spares, spares⟩
    · exact ⟨h, .refl h.tree fileName⟩

theorem run (h : site.IsConsistent) (events : List HostEvent) : (site.run events).IsConsistent ∧
    site.host.disk.Spares fileName (site.run events).host.disk := by
  induction events generalizing site with
  | nil => exact ⟨h, .refl h.tree fileName⟩
  | cons event events ih =>
    obtain ⟨stepped, spares⟩ := h.step event
    exact ⟨(ih stepped).1, spares.trans (ih stepped).2⟩

end IsConsistent

end Site

end IngestLedger
