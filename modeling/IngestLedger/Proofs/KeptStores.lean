import IngestLedger.Proofs.Disks
import IngestLedger.Proofs.StoreFiles

/-!
# Stores that are kept in a file

A store that was opened in a directory without a file, on a disk without links, is kept: its file
holds what the store does, also after writes that failed.

Main definitions:

* `Backend.IsKept`: the file of a store, if it has one, holds what the store does.

Main statements:

* `Backend.IsKept.write`: a kept store is kept through writes, whether they are answered or not.
* `Backend.IsKept.lasts`: a kept store whose entries are short is read back from its file.
-/

namespace IngestLedger

/-! ### The file and the one that is written beside it -/

theorem Path.exists_front (home : Path) :
    ∃ front : Path, ∀ name, home.child name = front ++ [name] := by
  unfold child
  split
  · exact ⟨home.dropLast, fun _ => rfl⟩
  · exact ⟨home, fun _ => rfl⟩

theorem StoreFile.isFileName_name : Path.IsFileName name := ⟨by decide, by decide, by decide⟩

theorem StoreFile.isFileName_temporaryName : Path.IsFileName temporaryName :=
  ⟨by decide, by decide, by decide⟩

/-- Where the file of a store stands, when paths lead where their names say. -/
def StoreFile.place (home : Path) : Place := (home.child name).placeFrom []

open StoreFile (isFileName_name isFileName_temporaryName)

namespace Disk

variable {disk after : Disk} {home : Path} {store : Store}

/-- The file of a store in a directory, if it is there, holds the store; and it is there, unless
nothing was ever written. -/
structure Keeps (disk : Disk) (home : Path) (store : Store) : Prop where
  linkless : disk.IsLinkless
  readable : (home.child StoreFile.name).fault? = none
  content_eq : ∀ number content,
    disk.node? (StoreFile.place home) = some (.file number content) →
      content = StoreFile.encode store
  present : store = .empty ∨ ∃ content, disk.read (home.child StoreFile.name) = .ok content

/-- A disk that leaves alone the file of a store and the directories on the way to it keeps the
store. -/
theorem Keeps.of_keeps (h : disk.Keeps home store) (linkless : after.IsLinkless)
    (kept : ∀ p, disk.HasDirectory p → after.node? p = some .directory)
    (same : ∀ number content,
      after.node? (StoreFile.place home) = some (.file number content) ↔
        disk.node? (StoreFile.place home) = some (.file number content)) :
    after.Keeps home store where
  linkless
  readable := h.readable
  content_eq number content file := h.content_eq number content ((same number content).1 file)
  present := by
    refine h.present.imp_right ?_
    rintro ⟨content, read⟩
    obtain ⟨fault, place, number, leads, file⟩ := (read_eq_ok_iff h.linkless).1 read
    refine ⟨content, (read_eq_ok_iff linkless).2 ⟨fault, place, number, ?_, ?_⟩⟩
    · exact leads.of_keeps disk.hasDirectory_root kept
    · rw [leads.eq_placeFrom] at file ⊢
      exact (same number content).2 file

theorem Keeps.of_growsTo (h : disk.Keeps home store) (grows : disk.GrowsTo after) :
    after.Keeps home store :=
  h.of_keeps (grows.isLinkless h.linkless)
    (fun p inside => grows.node?_eq (inside p (List.prefix_refl p)))
    fun _ _ => ⟨grows.file, grows.node?_eq⟩

variable {front : Path}

/-- Writing a file beside the one of a store keeps the store. -/
theorem Keeps.write_temporary (h : disk.Keeps home store) {content : Bytes}
    (beside : ∀ name, home.child name = front ++ [name])
    (written : disk.write (front ++ [StoreFile.temporaryName]) content = .ok after) :
    after.Keeps home store ∧ ∃ number,
      after.node? (front.placeFrom [] ++ [StoreFile.temporaryName]) =
        some (.file number content) := by
  obtain ⟨place, located, no_directory, rfl⟩ := write_ok written
  have leads := ((locate_eq_ok_iff h.linkless).1 located).2
  have temporary : place = front.placeFrom [] ++ [StoreFile.temporaryName] := by
    rw [leads.eq_placeFrom, Path.placeFrom_concat isFileName_temporaryName]
  have proper : place ≠ [] := by simp [temporary]
  have apart : StoreFile.place home ≠ place := by
    rw [temporary, StoreFile.place, beside, Path.placeFrom_concat isFileName_name]
    simp [StoreFile.name, StoreFile.temporaryName]
  obtain ⟨others, here⟩ := disk.node?_putFile place content
  obtain ⟨number, file⟩ := here proper
  have linkless : (disk.putFile place content).IsLinkless := by
    intro p target link
    by_cases same : p = place
    · rw [same, file] at link
      cases link
    · exact h.linkless p target (others p same ▸ link)
  refine ⟨h.of_keeps linkless (fun p inside => ?_) fun _ _ => by rw [others _ apart], number,
    temporary ▸ file⟩
  have dir := inside p (List.prefix_refl p)
  rw [others p (fun same => no_directory (same ▸ dir)), dir]

/-- A file that takes the place of the one of a store is the file of what it holds. -/
theorem Keeps.rename_temporary (h : disk.Keeps home store) {new : Store} {number : Nat}
    (beside : ∀ name, home.child name = front ++ [name])
    (file : disk.node? (front.placeFrom [] ++ [StoreFile.temporaryName]) =
      some (.file number (StoreFile.encode new)))
    (renamed : disk.rename (front ++ [StoreFile.temporaryName]) (front ++ [StoreFile.name]) =
      .ok after) : after.Keeps home new := by
  obtain ⟨parent, node, located, dir, here, no_directory, rfl⟩ :=
    rename_ok isFileName_name isFileName_temporaryName renamed
  have leads := ((locate_eq_ok_iff h.linkless).1 located).2
  rw [← leads.eq_placeFrom, here, Option.some.injEq] at file
  subst file
  have place_eq : StoreFile.place home = parent ++ [StoreFile.name] := by
    rw [StoreFile.place, beside, Path.placeFrom_concat isFileName_name, leads.eq_placeFrom]
  have proper : parent ++ [StoreFile.name] ≠ [] := by simp
  have stored : ((disk.remove (parent ++ [StoreFile.temporaryName])).put
      (parent ++ [StoreFile.name]) (.file number (StoreFile.encode new))).node?
        (parent ++ [StoreFile.name]) = some (.file number (StoreFile.encode new)) :=
    node?_put_self proper _
  have kept : ∀ p, disk.HasDirectory p →
      ((disk.remove (parent ++ [StoreFile.temporaryName])).put (parent ++ [StoreFile.name])
        (.file number (StoreFile.encode new))).node? p = some .directory := by
    intro p inside
    have dir := inside p (List.prefix_refl p)
    have apart : p ≠ parent ++ [StoreFile.name] := fun same => no_directory (same ▸ dir)
    rw [node?_put_of_ne apart, node?_remove, if_neg, dir]
    -- what is renamed is no directory, so it does not stand on the way to one
    rintro ⟨-, below⟩
    have way := inside _ below
    rw [here] at way
    cases way
  have reached := leads.of_keeps disk.hasDirectory_root kept
  have inside := (leads.concat disk.hasDirectory_root dir isFileName_name).1
  have found := (reached.concat (hasDirectory_root _) (kept parent inside) isFileName_name).2
  have linkless : ((disk.remove (parent ++ [StoreFile.temporaryName])).put
      (parent ++ [StoreFile.name]) (.file number (StoreFile.encode new))).IsLinkless := by
    intro p target link
    by_cases same : p = parent ++ [StoreFile.name]
    · rw [same, stored] at link
      cases link
    · rw [node?_put_of_ne same, node?_remove] at link
      split at link
      · cases link
      · exact h.linkless p target link
  refine ⟨linkless, h.readable, fun number' content file => ?_, .inr ⟨StoreFile.encode new, ?_⟩⟩
  · rw [place_eq, stored] at file
    cases file
    rfl
  · exact (read_eq_ok_iff linkless).2 ⟨h.readable, _, number, beside StoreFile.name ▸ found, stored⟩

/-- A disk keeps the store that was saved last. -/
theorem Keeps.save (h : disk.Keeps home store) (new : Store) {answer : Except DiskError Unit}
    (saved : Backend.save disk home new = (answer, after)) :
    after.Keeps home (if answer.isOk then new else store) := by
  obtain ⟨front, beside⟩ := home.exists_front
  have directories := h.of_growsTo (disk.growsTo_makeDirectories home)
  simp only [Backend.save, beside] at saved
  split at saved
  · rename_i made
    rw [made] at directories
    obtain ⟨rfl, rfl⟩ := Prod.mk.inj saved
    exact directories
  · rename_i made
    rw [made] at directories
    split at saved
    · obtain ⟨rfl, rfl⟩ := Prod.mk.inj saved
      exact directories
    · rename_i written
      obtain ⟨kept, number, file⟩ := directories.write_temporary beside written
      split at saved
      · obtain ⟨rfl, rfl⟩ := Prod.mk.inj saved
        exact kept
      · rename_i renamed
        obtain ⟨rfl, rfl⟩ := Prod.mk.inj saved
        exact kept.rename_temporary beside file renamed

/-- What is read back from a disk that keeps a store with short entries is the store. -/
theorem Keeps.eq_of_load (h : disk.Keeps home store) (short : ∀ e ∈ store.entries, e.IsShort)
    {loaded : Store} (read : Backend.load disk home = .ok loaded) : loaded = store := by
  unfold Backend.load at read
  split at read
  · rename_i bytes found
    obtain ⟨-, place, number, leads, file⟩ := (read_eq_ok_iff h.linkless).1 found
    have here : place = StoreFile.place home := leads.eq_placeFrom
    rw [h.content_eq number bytes (here ▸ file), StoreFile.decode_encode short] at read
    exact (Except.ok.inj read).symm
  · rename_i absent
    rcases h.present with nothing | ⟨content, found⟩
    · rw [nothing]
      exact (Except.ok.inj read).symm
    · rw [found] at absent
      cases absent
  · cases read

/-- Only where a path can be looked up is there a store to load. -/
theorem fault?_of_load {loaded : Store} (read : Backend.load disk home = .ok loaded) :
    (home.child StoreFile.name).fault? = none := by
  cases fault : (home.child StoreFile.name).fault? with
  | none => rfl
  | some e =>
    have refused : e ≠ .notFound := by
      rintro rfl
      unfold Path.fault? at fault
      split at fault
      · cases fault
      · split at fault
        · cases fault
        · cases fault
    simp only [Backend.load, Disk.read, locate, fault] at read
    cases read

/-- A disk of directories keeps the empty store, wherever that can be looked up. -/
theorem keeps_empty (bare : ∀ n ∈ disk.nodes, n.2 = .directory)
    (readable : (home.child StoreFile.name).fault? = none) : disk.Keeps home .empty := by
  have directory : ∀ p node, disk.node? p = some node → node = .directory := by
    intro p node here
    unfold node? at here
    split at here
    · exact (Option.some.inj here).symm
    · obtain ⟨before, later, nodes, -⟩ := List.lookup_eq_some_iff.1 here
      exact bare (p, node) (nodes ▸ List.mem_append_right _ List.mem_cons_self)
  refine ⟨fun p target link => ?_, readable, fun number content file => ?_, .inl rfl⟩
  · cases directory p _ link
  · cases directory _ _ file

end Disk

namespace Backend

variable {backend : Backend}

/-- The file of a store, if there is one, holds what the store does. -/
def IsKept (backend : Backend) : Prop :=
  ∀ home, backend.home = some home → backend.disk.Keeps home backend.contents

/-- A store is kept through writes, whether they are answered or not. -/
theorem IsKept.write (h : backend.IsKept) (batch : List Entry) :
    (backend.write batch).2.IsKept := by
  unfold Backend.write overwrite
  split
  · exact h
  · dsimp only
    split
    · rename_i memory
      intro home file
      rw [memory] at file
      cases file
    · rename_i home file
      have kept := h home file
      split
      · rename_i saved
        intro other here
        obtain rfl : home = other := Option.some.inj (file.symm.trans here)
        exact kept.save _ saved
      · rename_i saved
        intro other here
        obtain rfl : home = other := Option.some.inj (file.symm.trans here)
        exact kept.save _ saved

/-- A store that lasts: what is read back from its file is what it holds. -/
def Lasts (backend : Backend) : Prop :=
  ∀ again, backend.reload = .ok again → again.contents = backend.contents

/-- What is read back from a store that lasts is the store itself. -/
theorem Lasts.reload_eq {again : Backend} (lasts : backend.Lasts)
    (read : backend.reload = .ok again) : again = backend := by
  have same := lasts again read
  unfold reload at read
  split at read
  · exact (Except.ok.inj read).symm
  · split at read
    · obtain rfl := Except.ok.inj read
      cases backend
      simp only at same
      rw [same]
    · cases read

/-- A store that no file keeps stays as it is. -/
theorem lasts_of_home_none (memory : backend.home = none) : backend.Lasts := by
  intro again read
  simp only [reload, memory] at read
  rw [Except.ok.inj read]

/-- A kept store lasts, if its file has room for its entries. -/
theorem IsKept.lasts (h : backend.IsKept) (short : ∀ e ∈ backend.contents.entries, e.IsShort) :
    backend.Lasts := by
  intro again read
  unfold reload at read
  split at read
  · rw [Except.ok.inj read]
  · rename_i home file
    split at read
    · rename_i loaded
      obtain rfl := Except.ok.inj read
      exact (h home file).eq_of_load short loaded
    · cases read

/-- What is opened on a disk of directories is an empty store, and kept. -/
theorem isKept_of_openFile {disk : Disk} {home : Path}
    (bare : ∀ n ∈ disk.nodes, n.2 = .directory) (opened : openFile disk home = .ok backend) :
    backend.contents = .empty ∧ backend.IsKept := by
  unfold openFile at opened
  split at opened
  · rename_i loaded read
    obtain rfl := Except.ok.inj opened
    have kept := Disk.keeps_empty bare (Disk.fault?_of_load read)
    obtain rfl := kept.eq_of_load (by simp [Store.empty]) read
    refine ⟨rfl, fun other here => ?_⟩
    exact Option.some.inj here ▸ kept
  · cases opened

end Backend

end IngestLedger
