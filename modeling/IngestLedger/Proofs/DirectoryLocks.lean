import IngestLedger.Lock
import IngestLedger.Proofs.SparedFiles

/-!
# Taking the lock of a directory

The lock of a directory is the one of the file that its lock file leads to. Unless the lock file is
a link, that is a file in the directory, whichever path leads there: the lock is taken unless this
very file is held already.

Main definitions:

* `Disk.HasPlainLock`: the lock file of a directory is not a link.
* `Disk.IsLockable`: a path leads to a directory where a lock file stands or can be made.

Main statements:

* `DirectoryLock.acquire_of_file`, `DirectoryLock.acquire_of_absent`: the lock of a directory.
* `DirectoryLock.acquire_ok`, `DirectoryLock.exists_home_of_locate`: which file a lock is of.
-/

namespace IngestLedger

/-! ### Paths of files in a directory -/

namespace Path

/-- The path of a file in a directory is the one of the directory and the name, except that a slash
at the end of the directory counts for both. -/
theorem child_cases (directory : Path) :
    (∃ front, directory = front ++ [""] ∧ ∀ name, directory.child name = front ++ [name]) ∨
      ∀ name, directory.child name = directory ++ [name] := by
  by_cases slash : directory.getLast? = some ""
  · obtain ⟨front, rfl⟩ := List.getLast?_eq_some_iff.1 slash
    exact .inl ⟨front, rfl, fun name => by simp [child]⟩
  · exact .inr fun name => by simp [child, slash]

theorem fault?_eq_none_iff {path : Path} : path.fault? = none ↔
    (∀ name ∈ path, '\x00' ∉ name.toList) ∧
      (String.intercalate "/" path).utf8ByteSize ≤ longest := by
  unfold fault?
  by_cases zero : (path.any fun name => name.toList.contains '\x00') = true
  · have named : ¬ ∀ name ∈ path, '\x00' ∉ name.toList := by simpa using zero
    rw [if_pos zero]
    simp [named]
  · have free : ∀ name ∈ path, '\x00' ∉ name.toList := by simpa using zero
    rw [if_neg zero]
    simp only [ite_eq_right_iff, reduceCtorEq, imp_false, Nat.not_lt]
    exact ⟨fun short => ⟨free, short⟩, fun both => both.2⟩

/-- Where a file can be looked up, its directory can be. -/
theorem fault?_of_child {directory : Path} {name : String}
    (readable : (directory.child name).fault? = none) : directory.fault? = none := by
  obtain ⟨free, short⟩ := fault?_eq_none_iff.1 readable
  rw [fault?_eq_none_iff]
  rcases directory.child_cases with ⟨front, rfl, beside⟩ | beside
  · rw [beside] at free short
    refine ⟨fun last inside => ?_, ?_⟩
    · rcases List.mem_append.1 inside with inside | slash
      · exact free last (List.mem_append_left _ inside)
      · simp [List.mem_singleton.1 slash]
    · cases front with
      | nil => exact Nat.zero_le _
      | cons first front =>
        rw [String.intercalate_append_of_ne_nil (by simp) (by simp)] at short ⊢
        simp only [String.utf8ByteSize_append, String.intercalate_singleton] at short ⊢
        simp only [String.utf8ByteSize_empty]
        omega
  · rw [beside] at free short
    refine ⟨fun last inside => free last (List.mem_append_left _ inside), ?_⟩
    cases directory with
    | nil => exact Nat.zero_le _
    | cons first rest =>
      rw [String.intercalate_append_of_ne_nil (by simp) (by simp)] at short
      simp only [String.utf8ByteSize_append] at short
      omega

end Path

namespace Disk

variable {disk after : Disk} {directory : Path} {home place : Place} {left : Nat} {name : String}

/-- What a name in a directory stands for is looked up where the path of the directory ends. -/
theorem Enters.locateFrom_child (enters : disk.Enters mostLinks [] directory left home)
    (name : String) :
    disk.locateFrom mostLinks [] (directory.child name) = disk.locateFrom left home [name] := by
  rcases directory.child_cases with ⟨front, whole, beside⟩ | beside
  · rw [beside, (enters.of_slash whole).locateFrom_append]
  · rw [beside, enters.locateFrom_append]

/-- A path to something in a directory enters the directory. -/
theorem exists_enters_of_child
    (found : disk.locateFrom mostLinks [] (directory.child name) = .ok place) :
    ∃ left home, disk.Enters mostLinks [] directory left home ∧
      disk.locateFrom left home [name] = .ok place := by
  rcases directory.child_cases with ⟨front, rfl, beside⟩ | beside
  · rw [beside] at found
    obtain ⟨left, home, enters, onward⟩ := exists_enters_of_append found (by simp)
    exact ⟨left, home, enters.trans (.stay rfl (.here left home)), onward⟩
  · rw [beside] at found
    obtain ⟨left, home, enters, onward⟩ := exists_enters_of_append found (by simp)
    exact ⟨left, home, enters, onward⟩

/-! ### Where locks stand -/

open DirectoryLock (fileName)

/-- The lock file of a directory, if there is one, is not a link. -/
def HasPlainLock (disk : Disk) (home : Place) : Prop :=
  ∀ target, disk.node? (home ++ [fileName]) ≠ some (.link target)

theorem Spares.hasPlainLock_iff (spares : disk.Spares fileName after) :
    after.HasPlainLock home ↔ disk.HasPlainLock home := by
  simp only [HasPlainLock, ne_eq, spares.link]

/-- A path leads to a directory where a lock file stands or can be made. -/
structure IsLockable (disk : Disk) (directory : Path) (home : Place) : Prop where
  readable : (directory.child fileName).fault? = none
  located : disk.locate directory = .ok home
  dir : disk.node? home = some .directory
  free : ∀ node, disk.node? (home ++ [fileName]) = some node →
    ∃ number content, node = .file number content

theorem IsLockable.isEnd (h : disk.IsLockable directory home) :
    disk.IsEnd (home ++ [fileName]) := by
  refine ⟨fun dir => ?_, fun target link => ?_⟩
  · obtain ⟨_, _, same⟩ := h.free _ dir
    cases same
  · obtain ⟨_, _, same⟩ := h.free _ link
    cases same

/-- A directory with a lock file is lockable as long as the ways to it stay. -/
theorem IsLockable.mono (h : disk.IsLockable directory home) (tree : disk.IsTree)
    (kept : disk.KeepsWays after) {number : Nat} {content : Bytes}
    (file : after.node? (home ++ [fileName]) = some (.file number content)) :
    after.IsLockable directory home where
  readable := h.readable
  located := locate_of_keepsWays tree h.located h.dir kept
  dir := kept _ _ (by simp) h.dir
  free node here := ⟨number, content, Option.some.inj (here.symm.trans file)⟩

end Disk

namespace DirectoryLock

variable {disk after : Disk} {directory : Path} {home place : Place} {held : List Nat}
  {pid : UInt32} {lock : DirectoryLock}

theorem isFileName_fileName : Path.IsFileName fileName := ⟨by decide, by decide, by decide⟩

theorem locate_of_isLockable (tree : disk.IsTree) (lockable : disk.IsLockable directory home) :
    disk.locate (directory.child fileName) = .ok (home ++ [fileName]) := by
  obtain ⟨-, left, enters⟩ := Disk.exists_enters tree lockable.located lockable.dir
  rw [Disk.locate, lockable.readable]
  show disk.locateFrom Disk.mostLinks [] (directory.child fileName) = _
  rw [enters.locateFrom_child, Disk.locateFrom_of_isEnd isFileName_fileName lockable.isEnd]

theorem isInside_of_isLockable (tree : disk.IsTree) (lockable : disk.IsLockable directory home) :
    isInside disk directory (directory.child fileName) = true := by
  have before : home.isPrefixOf (home ++ [fileName]) = true :=
    List.isPrefixOf_iff_prefix.2 (List.prefix_append home [fileName])
  simp [isInside, locate_of_isLockable tree lockable, lockable.located, before]

/-- The lock of a directory with a lock file is the one of that file. -/
theorem acquire_of_file (tree : disk.IsTree) (lockable : disk.IsLockable directory home)
    {number : Nat} {content : Bytes}
    (file : disk.node? (home ++ [fileName]) = some (.file number content)) (held : List Nat)
    (pid : UInt32) : acquire disk held pid directory =
      if held.contains number then
        (.error (.alreadyLocked (pidOf content) (directory.child fileName).text), disk)
      else (.ok ⟨directory.child fileName, number⟩,
        disk.putFile (home ++ [fileName]) (contentFor pid)) := by
  simp only [acquire, isInside_of_isLockable tree lockable, locate_of_isLockable tree lockable,
    file, Bool.not_true, Bool.false_eq_true, if_false]

/-- Without a lock file one is made. -/
theorem acquire_of_absent (tree : disk.IsTree) (lockable : disk.IsLockable directory home)
    (absent : disk.node? (home ++ [fileName]) = none) (held : List Nat) (pid : UInt32) :
    acquire disk held pid directory = (.ok ⟨directory.child fileName, disk.filesMade⟩,
      disk.putFile (home ++ [fileName]) (contentFor pid)) := by
  simp only [acquire, isInside_of_isLockable tree lockable, locate_of_isLockable tree lockable,
    absent, Bool.not_true, Bool.false_eq_true, if_false]

/-- A lock that is not taken leaves the disk as it is. -/
theorem acquire_error {e : LockError}
    (refused : acquire disk held pid directory = (.error e, after)) : after = disk := by
  unfold acquire at refused
  dsimp only at refused
  split at refused
  · exact (Prod.mk.inj refused).2.symm
  · split at refused
    · exact (Prod.mk.inj refused).2.symm
    · split at refused
      · split at refused
        · exact (Prod.mk.inj refused).2.symm
        · cases (Prod.mk.inj refused).1
      · cases (Prod.mk.inj refused).1
      · exact (Prod.mk.inj refused).2.symm

/-- A lock that was taken is of the file that the path leads to, which nobody held. -/
theorem acquire_ok (taken : acquire disk held pid directory = (.ok lock, after)) : ∃ place,
    disk.locate (directory.child fileName) = .ok place ∧
    disk.node? place ≠ some .directory ∧ after = disk.putFile place (contentFor pid) ∧
    after.node? place = some (.file lock.file (contentFor pid)) ∧
    (lock.file ∉ held ∨ lock.file = disk.filesMade) := by
  unfold acquire at taken
  dsimp only at taken
  split at taken
  · cases (Prod.mk.inj taken).1
  · split at taken
    · cases (Prod.mk.inj taken).1
    · rename_i place located
      split at taken
      · rename_i number content file
        split at taken
        · cases (Prod.mk.inj taken).1
        · rename_i unheld
          obtain ⟨answer, rfl⟩ := Prod.mk.inj taken
          obtain rfl := Except.ok.inj answer
          have proper : place ≠ [] := by
            rintro rfl
            cases file
          refine ⟨place, located, by simp [file], rfl, ?_, .inl (by simpa using unheld)⟩
          simp only [Disk.putFile, file]
          exact Disk.node?_put_self proper _
      · rename_i absent
        obtain ⟨answer, rfl⟩ := Prod.mk.inj taken
        obtain rfl := Except.ok.inj answer
        have proper : place ≠ [] := by
          rintro rfl
          cases absent
        refine ⟨place, located, by simp [absent], rfl, ?_, .inr rfl⟩
        simp only [Disk.putFile, absent]
        exact Disk.node?_put_self proper _
      · cases (Prod.mk.inj taken).1

/-- Where a lock file can be looked up the path leads to a directory; without a link the lock file
stands in it. -/
theorem exists_home_of_locate (tree : disk.IsTree)
    (located : disk.locate (directory.child fileName) = .ok place)
    (other : disk.node? place ≠ some .directory) : ∃ home, disk.locate directory = .ok home ∧
      disk.node? home = some .directory ∧
      (disk.HasPlainLock home → place = home ++ [fileName] ∧ disk.IsLockable directory home) := by
  have found := located
  unfold Disk.locate at found
  split at found
  · cases found
  · rename_i readable
    obtain ⟨left, home, enters, onward⟩ := Disk.exists_enters_of_child found
    have dir := enters.directory tree rfl
    have leads : disk.locate directory = .ok home := by
      rw [Disk.locate, Path.fault?_of_child readable]
      exact enters.locateFrom
    refine ⟨home, leads, dir, fun plain => ?_⟩
    rcases Disk.locateFrom_cons_ok onward with ⟨stays, -⟩ | ⟨up, -⟩ |
      ⟨-, ⟨inside, ended⟩ | ⟨target, _, -, link, -⟩ | ⟨-, rfl, ends⟩⟩
    · exact absurd stays (by decide)
    · exact absurd up (by decide)
    · rw [Disk.locateFrom_nil] at ended
      exact absurd (Except.ok.inj ended ▸ inside) other
    · exact absurd link (plain target)
    · refine ⟨rfl, readable, leads, dir, fun node here => ?_⟩
      cases node with
      | file number content => exact ⟨number, content, rfl⟩
      | directory => exact absurd here ends.1
      | link target => exact absurd here (ends.2 target)

end DirectoryLock

end IngestLedger
