import IngestLedger.Disk
import IngestLedger.Store.File

/-!
# The store behind a ledger

A ledger reads and writes a store that is held in memory and may also be kept in a file. Any call
of the store may fail. A batch is written as a whole: a batch that cannot be written leaves the
store as it was. To keep a store, its new file is written beside the old one and then takes its
place.

Main statements:

* `Backend.contents_of_write_error`: a failed write leaves the contents as they were.
* `Backend.contents_of_write_ok`: a write puts all its entries.
-/

namespace IngestLedger

/-- The calls of a store that fail at present, and how. -/
structure Faults where
  get : Option StoreError := none
  scan : Option StoreError := none
  write : Option StoreError := none
  deriving DecidableEq, Repr

/-- A store as a ledger uses it: its contents, the directory of the file that keeps it, if one
does, the disk that this lies on, and the calls that fail. -/
structure Backend where
  contents : Store := .empty
  home : Option Path := none
  disk : Disk := .empty
  faults : Faults := {}
  deriving DecidableEq

namespace Backend

/-- A store that no file keeps. -/
def inMemory : Backend := {}

/-- The name of the kind of store. -/
def kindName (backend : Backend) : String :=
  if backend.home.isSome then "file" else "memory"

/-- The path of the file that keeps the store. -/
def filePath? (backend : Backend) : Option Path := backend.home.map (·.child StoreFile.name)

/-- The contents of the file in a directory; without a file there are none. -/
def load (disk : Disk) (home : Path) : Except StoreError Store :=
  match disk.read (home.child StoreFile.name) with
  | .ok bytes => StoreFile.decode bytes
  | .error .notFound => .ok .empty
  | .error e => .error (.io e.message)

/-- The store that the file in a directory keeps. -/
def openFile (disk : Disk) (home : Path) : Except StoreError Backend :=
  match load disk home with
  | .ok contents => .ok { contents, home := some home, disk }
  | .error e => .error e

/-- Read the store again from its file; a store that no file keeps stays as it is. -/
def reload (backend : Backend) : Except StoreError Backend :=
  match backend.home with
  | none => .ok backend
  | some home =>
    match load backend.disk home with
    | .ok contents => .ok { backend with contents }
    | .error e => .error e

/-- The value of a key. -/
def get (backend : Backend) (key : Bytes) : Except StoreError (Option Bytes) :=
  match backend.faults.get with
  | some e => .error e
  | none => .ok (backend.contents.get? key)

/-- The entries whose key begins with `front`. -/
def scan (backend : Backend) (front : Bytes) : Except StoreError (List Entry) :=
  match backend.faults.scan with
  | some e => .error e
  | none => .ok (backend.contents.scan front)

/-- Keep a store in the file of a directory: the answer, and the disk afterwards. The directory is
made if it is not there; the new file is written beside the old one and then takes its place. -/
def save (disk : Disk) (home : Path) (store : Store) : Except DiskError Unit × Disk :=
  match disk.makeDirectories home with
  | (.error e, disk) => (.error e, disk)
  | (.ok (), disk) =>
    match disk.write (home.child StoreFile.temporaryName) (StoreFile.encode store) with
    | .error e => (.error e, disk)
    | .ok disk =>
      match disk.rename (home.child StoreFile.temporaryName) (home.child StoreFile.name) with
      | .error e => (.error e, disk)
      | .ok disk => (.ok (), disk)

/-- Write a batch, whatever calls are made to fail: only the disk can refuse it. -/
def overwrite (backend : Backend) (batch : List Entry) : Except StoreError Unit × Backend :=
  let contents := backend.contents.insertAll batch
  match backend.home with
  | none => (.ok (), { backend with contents })
  | some home =>
    match save backend.disk home contents with
    | (.ok (), disk) => (.ok (), { backend with contents, disk })
    | (.error e, disk) => (.error (.io e.message), { backend with disk })

/-- Write a batch. -/
def write (backend : Backend) (batch : List Entry) : Except StoreError Unit × Backend :=
  match backend.faults.write with
  | some e => (.error e, backend)
  | none => backend.overwrite batch

/-- A failed write leaves the contents as they were. -/
theorem contents_of_write_error {backend after : Backend} {batch : List Entry} {e : StoreError}
    (h : backend.write batch = (.error e, after)) : after.contents = backend.contents := by
  unfold write overwrite at h
  split at h
  · simp only [Prod.mk.injEq] at h
    rw [← h.2]
  · dsimp only at h
    split at h
    · simp at h
    · split at h
      · simp at h
      · simp only [Prod.mk.injEq] at h
        rw [← h.2]

/-- A write puts all its entries, in order. -/
theorem contents_of_write_ok {backend after : Backend} {batch : List Entry}
    (h : backend.write batch = (.ok (), after)) :
    after.contents = backend.contents.insertAll batch := by
  unfold write overwrite at h
  split at h
  · simp at h
  · dsimp only at h
    split at h
    · simp only [Prod.mk.injEq] at h
      rw [← h.2]
    · split at h
      · simp only [Prod.mk.injEq] at h
        rw [← h.2]
      · simp at h

/-- A write does not change where the store is kept, nor which calls fail. -/
theorem home_faults_of_write (backend : Backend) (batch : List Entry) :
    (backend.write batch).2.home = backend.home ∧
      (backend.write batch).2.faults = backend.faults := by
  unfold write overwrite
  split
  · exact ⟨rfl, rfl⟩
  · dsimp only
    split
    · exact ⟨rfl, rfl⟩
    · split <;> exact ⟨rfl, rfl⟩

end Backend

end IngestLedger
