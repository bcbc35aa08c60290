import IngestLedger.Proofs.DiskTrees

/-!
# Files that are spared

Making directories, writing files and keeping a store leave a disk a tree, and they leave the files
and the links of another name where they are. What fails of them leaves the directories and links
too that paths go over.

Main definitions:

* `Disk.Spares`: the files and links of a name stay where they are.

Main statements:

* `Disk.spares_makeDirectories`, `Disk.spares_write`, `Disk.spares_save`: what is spared.
* `Disk.keepsWays_write`, `Disk.keepsWays_save`: which ways stay.
-/

namespace IngestLedger.Disk

variable {disk after : Disk} {place parent : Place} {path : Path} {name : String}

/-- A disk stays a tree, no number of a file is given out again, and the files and links of a name
stay where they are; no link comes to that name. -/
structure Spares (disk : Disk) (name : String) (after : Disk) : Prop where
  tree : after.IsTree
  made : disk.filesMade ≤ after.filesMade
  file : ∀ {p number content}, disk.node? (p ++ [name]) = some (.file number content) →
    ∃ content', after.node? (p ++ [name]) = some (.file number content')
  link : ∀ {p target}, after.node? (p ++ [name]) = some (.link target) ↔
    disk.node? (p ++ [name]) = some (.link target)

namespace Spares

theorem refl (tree : disk.IsTree) (name : String) : disk.Spares name disk :=
  ⟨tree, Nat.le_refl _, fun file => ⟨_, file⟩, .rfl⟩

theorem trans {between : Disk} (h : disk.Spares name between) (h' : between.Spares name after) :
    disk.Spares name after where
  tree := h'.tree
  made := Nat.le_trans h.made h'.made
  file here := by
    obtain ⟨content, between⟩ := h.file here
    exact h'.file between
  link := h'.link.trans h.link

end Spares

theorem spares_makeDirectories (tree : disk.IsTree) (path : Path) (name : String) :
    disk.Spares name (disk.makeDirectories path).2 where
  tree := tree.makeDirectories path
  made := Nat.le_of_eq (disk.filesMade_makeDirectories path).symm
  file here := ⟨_, (disk.growsTo_makeDirectories path).node?_eq here⟩
  link {p target} := by
    rcases disk.growsTo_makeDirectories path (p ++ [name]) with same | ⟨absent, made⟩
    · rw [same]
    · simp [absent, made]

/-! ### Writing files -/

theorem filesMade_putFile (disk : Disk) (place : Place) (content : Bytes) :
    disk.filesMade ≤ (disk.putFile place content).filesMade := by
  unfold putFile
  split
  · exact Nat.le_refl _
  · exact Nat.le_succ _

theorem spares_putFile (tree : disk.IsTree) (dir : disk.node? parent = some .directory)
    {last : String} (ends : disk.IsEnd (parent ++ [last])) (content : Bytes) (name : String) :
    disk.Spares name (disk.putFile (parent ++ [last]) content) where
  tree := tree.putFile dir ends.1 content
  made := disk.filesMade_putFile _ content
  file {p number before} here := by
    by_cases same : p ++ [name] = parent ++ [last]
    · -- a file that is written to again keeps its number
      rw [same] at here ⊢
      refine ⟨content, ?_⟩
      simp only [putFile, here]
      exact node?_put_self (by simp) _
    · exact ⟨before, ((disk.node?_putFile _ content).1 _ same).trans here⟩
  link {p target} := by
    obtain ⟨elsewhere, written⟩ := disk.node?_putFile (parent ++ [last]) content
    by_cases same : p ++ [name] = parent ++ [last]
    · obtain ⟨number, file⟩ := written (by simp)
      rw [same, file]
      exact ⟨nofun, fun link => absurd link (ends.2 target)⟩
    · rw [elsewhere _ same]

/-- What is written stands in a directory, where neither a directory nor a link stood. -/
theorem exists_parent_of_write (tree : disk.IsTree) {content : Bytes}
    (written : disk.write path content = .ok after) : ∃ parent last,
      disk.locate path = .ok (parent ++ [last]) ∧ disk.node? parent = some .directory ∧
      disk.IsEnd (parent ++ [last]) ∧ after = disk.putFile (parent ++ [last]) content := by
  obtain ⟨place, located, other, rfl⟩ := write_ok written
  obtain ⟨parent, last, rfl, dir, ends⟩ := exists_parent_of_locate tree located other
  exact ⟨parent, last, located, dir, ends, rfl⟩

theorem spares_write (tree : disk.IsTree) {content : Bytes}
    (written : disk.write path content = .ok after) (name : String) : disk.Spares name after := by
  obtain ⟨parent, last, -, dir, ends, rfl⟩ := exists_parent_of_write tree written
  exact spares_putFile tree dir ends content name

theorem keepsWays_putFile (ends : disk.IsEnd place) (content : Bytes) :
    disk.KeepsWays (disk.putFile place content) := by
  intro p node other here
  have apart : p ≠ place := by
    rintro rfl
    cases node with
    | file number content => exact other number content rfl
    | directory => exact ends.1 here
    | link target => exact ends.2 target here
  exact ((disk.node?_putFile place content).1 p apart).trans here

theorem keepsWays_write (tree : disk.IsTree) {content : Bytes}
    (written : disk.write path content = .ok after) : disk.KeepsWays after := by
  obtain ⟨parent, last, -, -, ends, rfl⟩ := exists_parent_of_write tree written
  exact keepsWays_putFile ends content

/-- Where a file was put there is no way. -/
theorem keepsWays_of_putFile (disk : Disk) (parent : Place) (last : String) (content : Bytes) :
    (disk.putFile (parent ++ [last]) content).KeepsWays disk := by
  obtain ⟨elsewhere, file⟩ := disk.node?_putFile (parent ++ [last]) content
  obtain ⟨number, file⟩ := file (by simp)
  intro p node other here
  by_cases same : p = parent ++ [last]
  · rw [same, file] at here
    exact absurd (Option.some.inj here).symm (other number content)
  · rwa [elsewhere p same] at here

/-! ### Keeping a store -/

/-- What was just written to is no directory under its own name. -/
theorem not_directory_of_write (tree : disk.IsTree) {front : Path} {content : Bytes}
    (proper : Path.IsFileName name)
    (written : disk.write (front ++ [name]) content = .ok after)
    (located : after.locate front = .ok parent)
    (dir : after.node? parent = some .directory) :
    after.node? (parent ++ [name]) ≠ some .directory := by
  intro inside
  have grown := (spares_write tree written name).tree
  obtain ⟨-, left, enters⟩ := exists_enters grown located dir
  obtain ⟨home, last, found, -, ends, rfl⟩ := exists_parent_of_write tree written
  -- directories and links were there before, so the path led to the directory itself
  have before := disk.keepsWays_of_putFile home last content
  have was := before _ .directory (by simp) inside
  unfold locate at found
  split at found
  · cases found
  · rw [(enters.mono before).locateFrom_append, locateFrom_of_directory proper was,
      locateFrom_nil] at found
    exact ends.1 (Except.ok.inj found ▸ was)

/-- Something that is not a directory takes the place of something else that is not. -/
theorem spares_rename (tree : disk.IsTree) {source target : String} {node : Node}
    (dir : disk.node? parent = some .directory)
    (here : disk.node? (parent ++ [source]) = some node)
    (movable : disk.node? (parent ++ [source]) ≠ some .directory)
    (other : disk.node? (parent ++ [target]) ≠ some .directory) (apart : source ≠ name)
    (apart' : target ≠ name) :
    disk.Spares name ((disk.remove (parent ++ [source])).put (parent ++ [target]) node) := by
  -- nothing stands below what is moved
  have kept : ∀ {p found}, disk.node? p = some found → p ≠ parent ++ [source] →
      (disk.remove (parent ++ [source])).node? p = some found := by
    intro p found inside different
    rw [node?_remove, if_neg, inside]
    rintro ⟨-, below⟩
    exact movable (tree.directory_of_prefix inside below (Ne.symm different))
  have gone : ∀ {p found}, (disk.remove (parent ++ [source])).node? p = some found →
      disk.node? p = some found ∧ p ≠ parent ++ [source] := by
    intro p found inside
    rw [node?_remove] at inside
    split at inside
    · cases inside
    · rename_i outside
      exact ⟨inside, fun same => outside ⟨by simp [same], same ▸ List.prefix_refl _⟩⟩
  have named {p : Place} {last : String} (different : last ≠ name) :
      p ++ [name] ≠ parent ++ [last] := fun same =>
    different (List.singleton_inj.1 (List.append_inj_right' same rfl)).symm
  refine ⟨(tree.remove _).put (kept dir (by simp)) (fun inside => other (gone inside).1)
    fun {number content} file => ?_, Nat.le_refl _, fun {p number content} file => ?_,
    fun {p goal} => ?_⟩
  · rw [file] at here
    refine ⟨tree.numbered here, fun again => ?_⟩
    exact absurd (tree.unique (gone again).1 here) (gone again).2
  · exact ⟨content, (node?_put_of_ne (named apart') _).trans (kept file (named apart))⟩
  · rw [node?_put_of_ne (named apart')]
    exact ⟨fun link => (gone link).1, fun link => kept link (named apart)⟩

/-- Keeping a store spares the files of any other name than those of its own files, whether or not
the store can be kept. -/
theorem spares_save (tree : disk.IsTree) (directory : Path) (store : Store)
    (apart : StoreFile.temporaryName ≠ name) (apart' : StoreFile.name ≠ name) :
    disk.Spares name (Backend.save disk directory store).2 := by
  obtain ⟨front, beside⟩ := directory.exists_front
  have made := spares_makeDirectories tree directory name
  simp only [Backend.save, beside]
  split
  · rename_i directories
    rwa [directories] at made
  · rename_i directories
    rw [directories] at made
    split
    · exact made
    · rename_i written
      have wrote := made.trans (spares_write made.tree written name)
      split
      · exact wrote
      · rename_i renamed
        obtain ⟨parent, node, located, dir, here, other, rfl⟩ :=
          rename_ok StoreFile.isFileName_name StoreFile.isFileName_temporaryName renamed
        have movable := not_directory_of_write made.tree StoreFile.isFileName_temporaryName written
          located dir
        exact wrote.trans (spares_rename wrote.tree dir here movable other apart apart')

/-- A store that cannot be kept leaves the ways on the disk as they are. -/
theorem keepsWays_save (tree : disk.IsTree) {directory : Path} {store : Store} {e : DiskError}
    (failed : Backend.save disk directory store = (.error e, after)) : disk.KeepsWays after := by
  have made := tree.makeDirectories directory
  have grows := disk.growsTo_makeDirectories directory
  unfold Backend.save at failed
  split at failed
  · rename_i directories
    obtain ⟨-, rfl⟩ := Prod.mk.inj failed
    rw [directories] at grows
    exact grows.keepsWays
  · rename_i directories
    rw [directories] at made grows
    split at failed
    · obtain ⟨-, rfl⟩ := Prod.mk.inj failed
      exact grows.keepsWays
    · rename_i written
      split at failed
      · obtain ⟨-, rfl⟩ := Prod.mk.inj failed
        exact grows.keepsWays.trans (keepsWays_write made written)
      · cases (Prod.mk.inj failed).1

end IngestLedger.Disk
