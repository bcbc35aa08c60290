import IngestLedger.Disk
import IngestLedger.Error
import IngestLedger.Text.Blank

/-!
# Directory locks

A data directory is held through the lock of a file in it. Whoever holds the lock writes the
number of its process into the file; the file stays when the lock is given back. The lock belongs
to the file that the path leads to, which has to lie in the directory if it is already there.

Main definitions:

* `DirectoryLock.acquire`: take the lock of a directory.
* `LockError`: why it cannot be taken.
-/

namespace IngestLedger

/-- A lock that is held: the path of the lock file and the number of the file that this led to. -/
structure DirectoryLock where
  path : Path
  file : Nat
  deriving DecidableEq, Repr

/-- Why a lock cannot be taken. -/
inductive LockError where
  | createFailed (reason : String)
  /-- Someone else holds the lock; the file may name the process. -/
  | alreadyLocked (pid : Option UInt32) (path : String)
  | writeFailed (reason : String)
  deriving DecidableEq, Repr

namespace LockError

/-- What the text begins with when someone else holds the lock. -/
def inUse : String := "Database already in use"

/-- The error in words. -/
def message : LockError → String
  | createFailed reason => "Failed to create lock file: " ++ reason
  | alreadyLocked (some pid) path => inUse ++ s!" by process {pid} ({path})"
  | alreadyLocked none path => inUse ++ s!" ({path})"
  | writeFailed reason => "Failed to write PID to lock file: " ++ reason

/-- The error of a ledger whose directory cannot be locked. -/
def toLedgerError (e : LockError) : LedgerError := .databaseLocked e.message

end LockError

namespace DirectoryLock

/-- The name of the lock file. -/
def fileName : String := "LOCK"

/-- The number of a process that the content of a lock file gives. -/
def pidOf (content : Bytes) : Option UInt32 := do
  let text ← Utf8.decode? content
  let n ← Text.wholeNumber? UInt32.size (Text.trimChars text.toList)
  return n.toUInt32

/-- What the holder of a lock writes into the file. -/
def contentFor (pid : UInt32) : Bytes := Utf8.encode (toString pid ++ "\n")

/-- Whether the lock file, when there is one, lies in its directory. -/
def isInside (disk : Disk) (directory path : Path) : Bool :=
  match disk.locate path, disk.locate directory with
  | .ok place, .ok directory => (disk.node? place).isNone || directory.isPrefixOf place
  | _, _ => true

/-- Take the lock of a directory for a process, while the locks of the files `held` are held. The
answer stands beside the disk afterwards. -/
def acquire (disk : Disk) (held : List Nat) (pid : UInt32) (directory : Path) :
    Except LockError DirectoryLock × Disk :=
  let path := directory.child fileName
  if !isInside disk directory path then
    (.error (.createFailed "Lock path escapes data directory"), disk)
  else
    match disk.locate path with
    | .error e => (.error (.createFailed e.message), disk)
    | .ok place =>
      let locked := disk.putFile place (contentFor pid)
      match disk.node? place with
      | some (.file number content) =>
        if held.contains number then (.error (.alreadyLocked (pidOf content) path.text), disk)
        else (.ok ⟨path, number⟩, locked)
      | none => (.ok ⟨path, disk.filesMade⟩, locked)
      | some _ => (.error (.createFailed DiskError.isADirectory.message), disk)

end DirectoryLock

end IngestLedger
