import IngestLedger.Ledger.Call
import IngestLedger.Lock
import IngestLedger.Settings

/-!
# A host

A host has a disk and runs ledgers on it, each under a name of its own. A ledger with a persistent
store holds the lock of its data directory as long as it is open, so a directory serves one ledger
at a time. Opening makes the directory, takes the lock and opens the store; when a later part
fails, the lock is given back.

Main definitions:

* `Host.openLedger`, `Host.close`: open and close a ledger.
* `Host.lock`, `Host.unlock`: hold the lock of a directory without a ledger.
* `Host.use`: let an open ledger do something.
-/

namespace IngestLedger

/-- An open ledger and the lock of its directory. -/
structure OpenLedger where
  ledger : Ledger
  lock : Option DirectoryLock

/-- A disk, with the ledgers that are open on it and the locks that are held besides, by name, and
the number of the process that holds them. -/
structure Host where
  disk : Disk
  ledgers : List (String × OpenLedger)
  locks : List (String × DirectoryLock)
  pid : UInt32

namespace Host

/-- A host with an empty disk. -/
def fresh (pid : UInt32) : Host := ⟨.empty, [], [], pid⟩

/-- The numbers of the lock files that are held. -/
def held (host : Host) : List Nat :=
  host.ledgers.filterMap (fun entry => entry.2.lock.map DirectoryLock.file) ++
    host.locks.map fun entry => entry.2.file

/-- A list of named things with one of them replaced or added. -/
def replace {α : Type} (name : String) (value : α) (list : List (String × α)) : List (String × α) :=
  (name, value) :: list.filter fun entry => entry.1 ≠ name

/-- A list of named things without one of them. -/
def without {α : Type} (name : String) (list : List (String × α)) : List (String × α) :=
  list.filter fun entry => entry.1 ≠ name

/-- Take the lock of a directory. Waiting for a lock that is held changes nothing here, as nobody
gives it back meanwhile. -/
def acquire (host : Host) (directory : Path) : Except LockError DirectoryLock × Host :=
  match DirectoryLock.acquire host.disk host.held host.pid directory with
  | (result, disk) => (result, { host with disk })

/-- Make the data directory and take its lock. -/
def prepareDirectory (host : Host) (directory : Path) : Except LedgerError DirectoryLock × Host :=
  match host.disk.makeDirectories directory with
  | (.error e, disk) =>
    (.error (.database ("Failed to create data directory " ++ directory.text ++ ": " ++ e.message)),
      { host with disk })
  | (.ok (), disk) =>
    match { host with disk }.acquire directory with
    | (.ok lock, host) => (.ok lock, host)
    | (.error e, host) => (.error e.toLedgerError, host)

/-- The store of a kind in a directory. -/
def openStore (host : Host) (directory : Path) : StoreKind → Except LedgerError Backend
  | .memory => .ok .inMemory
  | .file =>
    match Backend.openFile host.disk directory with
    | .ok backend => .ok backend
    | .error e => .error (.ofStore e)
  | .rocksDb =>
    .error (.database
      "RocksDB backend requested but the \x60rocksdb\x60 feature is disabled")

/-- Open a ledger over the store of a kind in a directory that is held by the given lock. -/
def openWith (host : Host) (name : String) (directory : Path) (kind : StoreKind)
    (lock : Option DirectoryLock) : Except LedgerError Unit × Host :=
  match host.openStore directory kind with
  | .error e => (.error e, host)
  | .ok backend =>
    match Ledger.openOn backend .zero with
    | (.error e, ledger) =>
      (.error e, if kind.isPersistent then { host with disk := ledger.backend.disk } else host)
    | (.ok (), ledger) =>
      (.ok (), { host with
        disk := if kind.isPersistent then ledger.backend.disk else host.disk
        ledgers := replace name ⟨ledger, lock⟩ host.ledgers })

/-- Open a ledger under a name. A ledger that was open under the name is closed once the new one is
open. -/
def openLedger (host : Host) (name : String) (directory : Path) (kind : StoreKind) :
    Except LedgerError Unit × Host :=
  if kind.isPersistent then
    match host.prepareDirectory directory with
    | (.error e, host) => (.error e, host)
    | (.ok lock, host) => host.openWith name directory kind (some lock)
  else host.openWith name directory kind none

/-- Close the ledger under a name, if it is open, and give back its lock. -/
def close (host : Host) (name : String) : Bool × Host :=
  ((host.ledgers.lookup name).isSome, { host with ledgers := without name host.ledgers })

/-- Hold the lock of a directory under a name. A lock that was held under the name is given back
once the new one is held. -/
def lock (host : Host) (name : String) (directory : Path) : Except LockError DirectoryLock × Host :=
  match host.acquire directory with
  | (.error e, host) => (.error e, host)
  | (.ok lock, host) => (.ok lock, { host with locks := replace name lock host.locks })

/-- Give back the lock under a name, if it is held. -/
def unlock (host : Host) (name : String) : Bool × Host :=
  ((host.locks.lookup name).isSome, { host with locks := without name host.locks })

/-- Let the ledger under a name, if it is open, do something on the disk of the host. -/
def use {α : Type} (host : Host) (name : String) (action : Ledger → α × Ledger) :
    Option α × Host :=
  match host.ledgers.lookup name with
  | none => (none, host)
  | some opened =>
    let ledger := opened.ledger
    if ledger.backend.home.isSome then
      let (result, after) :=
        action { ledger with backend := { ledger.backend with disk := host.disk } }
      (some result, { host with
        disk := after.backend.disk
        ledgers := replace name { opened with ledger := after } host.ledgers })
    else
      let (result, after) := action ledger
      (some result,
        { host with ledgers := replace name { opened with ledger := after } host.ledgers })

end Host

end IngestLedger
