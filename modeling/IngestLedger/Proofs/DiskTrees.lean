import IngestLedger.Proofs.KeptStores
import Mathlib.Data.List.Induction

/-!
# Trees of directories with links

On a disk that is a tree, what stands anywhere lies in a directory, and no file stands at two
places. A path enters a directory over directories and links; from there it goes on as if it began
there. Making directories leaves a disk a tree, and makes nothing where a path enters one already.

Main definitions:

* `Disk.IsTree`: what stands anywhere lies in a directory, and each file stands at one place.
* `Disk.Enters`: a path enters a directory, over directories and links.

Main statements:

* `Disk.Enters.locateFrom_append`: what comes behind a path that enters a directory.
* `Disk.IsTree.makeDirectories`: a disk stays a tree.
* `Disk.makeDirectories_of_enters`: where a path enters a directory nothing is made.
-/

namespace IngestLedger.Disk

variable {disk after : Disk} {links left : Nat} {base place home parent : Place}
  {path ahead front : Path} {name : String}

/-! ### Trees -/

/-- What stands anywhere lies in a directory, and each file stands at one place and has a number
that was given out. -/
structure IsTree (disk : Disk) : Prop where
  parent : ∀ {place name node}, disk.node? (place ++ [name]) = some node →
    disk.node? place = some .directory
  numbered : ∀ {place number content}, disk.node? place = some (.file number content) →
    number < disk.filesMade
  unique : ∀ {p q number c d}, disk.node? p = some (.file number c) →
    disk.node? q = some (.file number d) → p = q

@[simp] theorem node?_root (disk : Disk) : disk.node? [] = some .directory := rfl

theorem isTree_empty : empty.IsTree where
  parent {place name node} here := by simp [node?, empty] at here
  numbered {place number content} here := by
    unfold node? at here
    split at here <;> cases here
  unique {p q number c d} here _ := by
    unfold node? at here
    split at here <;> cases here

theorem IsTree.dropLast (tree : disk.IsTree) (here : disk.node? place = some .directory) :
    disk.node? place.dropLast = some .directory := by
  rcases List.eq_nil_or_concat place with rfl | ⟨front, name, rfl⟩
  · exact here
  · rw [List.concat_eq_append, List.dropLast_concat]
    rw [List.concat_eq_append] at here
    exact tree.parent here

/-- What stands on the way to something is a directory. -/
theorem IsTree.directory_of_prefix (tree : disk.IsTree) {node : Node}
    (here : disk.node? place = some node) (before : front <+: place) (apart : front ≠ place) :
    disk.node? front = some .directory := by
  obtain ⟨rest, rfl⟩ := before
  induction rest using List.reverseRecOn generalizing node with
  | nil => exact absurd (List.append_nil front).symm apart
  | append_singleton rest name ih =>
    rw [← List.append_assoc] at here
    have dir := tree.parent here
    by_cases last : rest = []
    · rwa [last, List.append_nil] at dir
    · exact ih dir (by simpa using last)

/-! ### Ways of paths -/

/-- The directories and the links that paths go over stay. -/
def KeepsWays (disk after : Disk) : Prop :=
  ∀ p node, (∀ number content, node ≠ .file number content) → disk.node? p = some node →
    after.node? p = some node

theorem KeepsWays.refl (disk : Disk) : disk.KeepsWays disk := fun _ _ _ here => here

theorem KeepsWays.trans {between : Disk} (h : disk.KeepsWays between)
    (h' : between.KeepsWays after) : disk.KeepsWays after :=
  fun p node other here => h' p node other (h p node other here)

theorem GrowsTo.keepsWays (grows : disk.GrowsTo after) : disk.KeepsWays after :=
  fun _ _ _ => grows.node?_eq

/-- A path enters a directory from another one, over directories and links; so many links may be
followed from there on. -/
inductive Enters (disk : Disk) : Nat → Place → Path → Nat → Place → Prop
  | here (links : Nat) (base : Place) : Enters disk links base [] links base
  | stay {links left : Nat} {base place : Place} {name : String} {ahead : Path}
      (stays : Path.stays name = true) (onward : Enters disk links base ahead left place) :
      Enters disk links base (name :: ahead) left place
  | up {links left : Nat} {base place : Place} {ahead : Path}
      (onward : Enters disk links base.dropLast ahead left place) :
      Enters disk links base (".." :: ahead) left place
  | enter {links left : Nat} {base place : Place} {name : String} {ahead : Path}
      (proper : Path.IsFileName name) (dir : disk.node? (base ++ [name]) = some .directory)
      (onward : Enters disk links (base ++ [name]) ahead left place) :
      Enters disk links base (name :: ahead) left place
  | follow {links left : Nat} {base place : Place} {name : String} {ahead target : Path}
      (proper : Path.IsFileName name) (link : disk.node? (base ++ [name]) = some (.link target))
      (onward : Enters disk links [] (target ++ ahead) left place) :
      Enters disk (links + 1) base (name :: ahead) left place

namespace Enters

/-- What comes behind a path that enters a directory goes on from there. -/
theorem locateFrom_append (h : disk.Enters links base path left place) (ahead : Path) :
    disk.locateFrom links base (path ++ ahead) = disk.locateFrom left place ahead := by
  induction h with
  | here => rfl
  | stay stays _ ih => rw [List.cons_append, locateFrom_of_stays stays, ih]
  | up _ ih => rw [List.cons_append, locateFrom_up, ih]
  | enter proper dir _ ih =>
    rw [List.cons_append, locateFrom_of_directory proper dir, ih]
  | follow proper link _ ih =>
    rw [List.cons_append, locateFrom_of_link proper link, ← List.append_assoc, ih]

theorem locateFrom (h : disk.Enters links base path left place) :
    disk.locateFrom links base path = .ok place := by
  have whole := h.locateFrom_append []
  rwa [List.append_nil, locateFrom_nil] at whole

theorem trans {between : Nat} {middle : Place} (h : disk.Enters links base path between middle)
    (h' : disk.Enters between middle ahead left place) :
    disk.Enters links base (path ++ ahead) left place := by
  induction h with
  | here => exact h'
  | stay stays _ ih => exact .stay stays (ih h')
  | up _ ih => exact .up (ih h')
  | enter proper dir _ ih => exact .enter proper dir (ih h')
  | follow proper link _ ih =>
    have onward := ih h'
    rw [List.append_assoc] at onward
    exact .follow proper link onward

/-- A slash at the end of a path makes no difference. -/
theorem of_slash (h : disk.Enters links base path left place) {front : Path}
    (whole : path = front ++ [""]) : disk.Enters links base front left place := by
  induction h generalizing front with
  | here => simp at whole
  | @stay links left base place name ahead stays onward ih =>
    cases front with
    | nil =>
      obtain ⟨rfl, rfl⟩ := List.cons.inj whole
      exact onward
    | cons first front =>
      obtain ⟨rfl, rfl⟩ := List.cons.inj whole
      exact .stay stays (ih rfl)
  | up onward ih =>
    cases front with
    | nil => exact absurd (List.cons.inj whole).1 (by decide)
    | cons first front =>
      obtain ⟨rfl, rfl⟩ := List.cons.inj whole
      exact .up (ih rfl)
  | enter proper dir onward ih =>
    cases front with
    | nil =>
      obtain ⟨rfl, -⟩ := List.cons.inj whole
      cases proper.moves
    | cons first front =>
      obtain ⟨rfl, rfl⟩ := List.cons.inj whole
      exact .enter proper dir (ih rfl)
  | follow proper link onward ih =>
    cases front with
    | nil =>
      obtain ⟨rfl, -⟩ := List.cons.inj whole
      cases proper.moves
    | cons first front =>
      obtain ⟨rfl, rfl⟩ := List.cons.inj whole
      exact .follow proper link (ih (List.append_assoc ..).symm)

/-- What is entered is a directory. -/
theorem directory (h : disk.Enters links base path left place) (tree : disk.IsTree)
    (dir : disk.node? base = some .directory) : disk.node? place = some .directory := by
  induction h with
  | here => exact dir
  | stay _ _ ih => exact ih dir
  | up _ ih => exact ih (tree.dropLast dir)
  | enter _ deeper _ ih => exact ih deeper
  | follow _ _ _ ih => exact ih rfl

/-- Directories and links that stay are still gone through. -/
theorem mono (h : disk.Enters links base path left place) (kept : disk.KeepsWays after) :
    after.Enters links base path left place := by
  induction h with
  | here => exact .here _ _
  | stay stays _ ih => exact .stay stays ih
  | up _ ih => exact .up ih
  | enter proper dir _ ih => exact .enter proper (kept _ _ (by simp) dir) ih
  | follow proper link _ ih => exact .follow proper (kept _ _ (by simp) link) ih

end Enters

/-- A path that goes on behind its front has entered a directory there. -/
theorem exists_enters_of_append {links : Nat} {base place : Place} {front ahead : Path}
    (found : disk.locateFrom links base (front ++ ahead) = .ok place) (more : ahead ≠ []) :
    ∃ left parent, disk.Enters links base front left parent ∧
      disk.locateFrom left parent ahead = .ok place := by
  match front with
  | [] => exact ⟨links, base, .here links base, found⟩
  | name :: rest =>
    rcases locateFrom_cons_ok found with ⟨stays, onward⟩ | ⟨rfl, onward⟩ |
      ⟨proper, ⟨dir, onward⟩ | ⟨target, left, rfl, link, onward⟩ | ⟨last, -⟩⟩
    · obtain ⟨left, parent, enters, behind⟩ := exists_enters_of_append onward more
      exact ⟨left, parent, .stay stays enters, behind⟩
    · obtain ⟨left, parent, enters, behind⟩ := exists_enters_of_append onward more
      exact ⟨left, parent, .up enters, behind⟩
    · obtain ⟨left, parent, enters, behind⟩ := exists_enters_of_append onward more
      exact ⟨left, parent, .enter proper dir enters, behind⟩
    · have whole : disk.locateFrom left [] ((target ++ rest) ++ ahead) = .ok place :=
        (List.append_assoc ..).symm ▸ onward
      obtain ⟨left, parent, enters, behind⟩ := exists_enters_of_append whole more
      exact ⟨left, parent, .follow proper link enters, behind⟩
    · exact absurd (List.append_eq_nil_iff.1 last).2 more
termination_by (links, front.length)

/-- A path that leads somewhere enters a directory, or it ends at something in a directory. -/
theorem locateFrom_ok (tree : disk.IsTree) {links : Nat} {base place : Place} {path : Path}
    (found : disk.locateFrom links base path = .ok place)
    (dir : disk.node? base = some .directory) :
    (∃ left, disk.Enters links base path left place) ∨
    ∃ parent name, place = parent ++ [name] ∧ disk.node? parent = some .directory ∧
      disk.IsEnd place := by
  match path with
  | [] =>
    rw [locateFrom_nil] at found
    obtain rfl := Except.ok.inj found
    exact .inl ⟨links, .here links base⟩
  | name :: rest =>
    rcases locateFrom_cons_ok found with ⟨stays, onward⟩ | ⟨rfl, onward⟩ |
      ⟨proper, ⟨deeper, onward⟩ | ⟨target, left, rfl, link, onward⟩ | ⟨rfl, rfl, ends⟩⟩
    · exact (locateFrom_ok tree onward dir).imp_left (.imp fun _ => .stay stays)
    · exact (locateFrom_ok tree onward (tree.dropLast dir)).imp_left (.imp fun _ => .up)
    · exact (locateFrom_ok tree onward deeper).imp_left (.imp fun _ => .enter proper deeper)
    · exact (locateFrom_ok tree onward (node?_root disk)).imp_left
        (.imp fun _ => .follow proper link)
    · exact .inr ⟨base, name, rfl, dir, ends⟩
termination_by (links, path.length)

/-- A path that leads to a directory enters it. -/
theorem exists_enters (tree : disk.IsTree) (found : disk.locate path = .ok place)
    (dir : disk.node? place = some .directory) :
    path.fault? = none ∧ ∃ left, disk.Enters mostLinks [] path left place := by
  unfold locate at found
  split at found
  · cases found
  · rename_i readable
    refine ⟨readable, ?_⟩
    rcases locateFrom_ok tree found disk.node?_root with enters | ⟨_, _, -, -, ends⟩
    · exact enters
    · exact absurd dir ends.1

/-- A path that does not lead to a directory leads to something in one, or to where it can be. -/
theorem exists_parent_of_locate (tree : disk.IsTree) (found : disk.locate path = .ok place)
    (other : disk.node? place ≠ some .directory) : ∃ parent name, place = parent ++ [name] ∧
      disk.node? parent = some .directory ∧ disk.IsEnd place := by
  unfold locate at found
  split at found
  · cases found
  · rcases locateFrom_ok tree found disk.node?_root with ⟨left, enters⟩ | ends
    · exact absurd (enters.directory tree rfl) other
    · exact ends

/-- A path still leads to a directory when the ways stay. -/
theorem locate_of_keepsWays (tree : disk.IsTree) (found : disk.locate path = .ok place)
    (dir : disk.node? place = some .directory) (kept : disk.KeepsWays after) :
    after.locate path = .ok place := by
  obtain ⟨readable, left, enters⟩ := exists_enters tree found dir
  rw [locate, readable]
  exact (enters.mono kept).locateFrom

/-! ### Changes that keep a tree -/

/-- Something that comes to a place in a directory, where none was, keeps a tree; a file must not
stand anywhere else. -/
theorem IsTree.put (tree : disk.IsTree) {node : Node} (dir : disk.node? parent = some .directory)
    (other : disk.node? (parent ++ [name]) ≠ some .directory)
    (alone : ∀ {number content}, node = .file number content → number < disk.filesMade ∧
      ∀ {q d}, disk.node? q = some (.file number d) → q = parent ++ [name]) :
    (disk.put (parent ++ [name]) node).IsTree := by
  have here : (disk.put (parent ++ [name]) node).node? (parent ++ [name]) = some node :=
    node?_put_self (by simp) node
  have elsewhere : ∀ {q}, q ≠ parent ++ [name] →
      (disk.put (parent ++ [name]) node).node? q = disk.node? q :=
    fun apart => node?_put_of_ne apart node
  refine ⟨fun {p last found} inside => ?_, fun {p number content} file => ?_,
    fun {p q number c d} file file' => ?_⟩
  · -- what lies in a directory still does, as no directory was replaced
    have directory : disk.node? p = some .directory := by
      by_cases same : p ++ [last] = parent ++ [name]
      · rw [(List.append_inj_left' same rfl)]
        exact dir
      · rw [elsewhere same] at inside
        exact tree.parent inside
    rw [elsewhere fun same => other (same ▸ directory)]
    exact directory
  · by_cases same : p = parent ++ [name]
    · rw [same, here] at file
      exact (alone (Option.some.inj file)).1
    · rw [elsewhere same] at file
      exact tree.numbered file
  · by_cases same : p = parent ++ [name]
    · rw [same, here] at file
      by_cases same' : q = parent ++ [name]
      · rw [same, same']
      · rw [elsewhere same'] at file'
        exact absurd ((alone (Option.some.inj file)).2 file') same'
    · rw [elsewhere same] at file
      by_cases same' : q = parent ++ [name]
      · rw [same', here] at file'
        exact absurd ((alone (Option.some.inj file')).2 file) same
      · rw [elsewhere same'] at file'
        exact tree.unique file file'

theorem IsTree.putFile (tree : disk.IsTree) (dir : disk.node? parent = some .directory)
    (other : disk.node? (parent ++ [name]) ≠ some .directory) (content : Bytes) :
    (disk.putFile (parent ++ [name]) content).IsTree := by
  unfold Disk.putFile
  split
  · rename_i number before file
    refine tree.put dir other fun {n c} same => ?_
    obtain ⟨rfl, rfl⟩ := Node.file.inj same
    exact ⟨tree.numbered file, fun again => tree.unique again file⟩
  · have more : ({ disk with filesMade := disk.filesMade + 1 } : Disk).IsTree :=
      ⟨tree.parent, fun file => Nat.lt_succ_of_lt (tree.numbered file), tree.unique⟩
    refine more.put dir other fun {n c} same => ?_
    obtain ⟨rfl, rfl⟩ := Node.file.inj same
    exact ⟨Nat.lt_succ_self _, fun again => absurd (tree.numbered again) (Nat.lt_irrefl _)⟩

/-- A link comes to a place in a directory, so it keeps a tree. -/
theorem IsTree.link (tree : disk.IsTree) {target : Path}
    (linked : disk.link target path = .ok after) : after.IsTree := by
  unfold Disk.link at linked
  split at linked
  · cases linked
  · rename_i place found
    split at linked
    · cases linked
    · rename_i absent
      obtain rfl := Except.ok.inj linked
      -- the place is a name in a directory, however the path is written
      have entry : ∃ parent name, place = parent ++ [name] ∧
          disk.node? parent = some .directory := by
        unfold locateEntry at found
        split at found
        · obtain rfl := Except.ok.inj found
          cases absent
        · split at found
          · obtain ⟨parent, name, same, dir, -⟩ :=
              exists_parent_of_locate tree found (by simp [absent])
            exact ⟨parent, name, same, dir⟩
          · split at found
            · split at found
              · cases found
              · split at found
                · rename_i dir
                  exact ⟨_, _, (Except.ok.inj found).symm, dir⟩
                · cases found
            · cases found
      obtain ⟨parent, name, rfl, dir⟩ := entry
      exact tree.put dir (by simp [absent]) nofun

/-- Taking away what stands at a place and below it keeps a tree. -/
theorem IsTree.remove (tree : disk.IsTree) (place : Place) : (disk.remove place).IsTree := by
  have kept : ∀ {p node}, (disk.remove place).node? p = some node →
      disk.node? p = some node ∧ (p ≠ [] → ¬ place <+: p) := by
    intro p node here
    rw [node?_remove] at here
    split at here
    · cases here
    · rename_i outside
      exact ⟨here, fun proper below => outside ⟨proper, below⟩⟩
  refine ⟨fun {p last node} here => ?_, fun file => tree.numbered (kept file).1,
    fun file file' => tree.unique (kept file).1 (kept file').1⟩
  obtain ⟨here, outside⟩ := kept here
  rw [node?_remove, if_neg]
  · exact tree.parent here
  · rintro ⟨-, below⟩
    exact outside (by simp) (below.trans (List.prefix_append p [last]))

/-! ### Making directories -/

theorem withoutSlashes_append (path : Path) :
    ∃ slashes, path = path.withoutSlashes ++ slashes ∧ ∀ slash ∈ slashes, slash = "" := by
  refine ⟨(path.reverse.takeWhile (· = "")).reverse, ?_, fun slash inside => ?_⟩
  · rw [Path.withoutSlashes, ← List.reverse_append, List.takeWhile_append_dropWhile,
      List.reverse_reverse]
  · simpa using List.all_eq_true.1 List.all_takeWhile slash (List.mem_reverse.1 inside)

theorem getLast?_withoutSlashes (last : path.withoutSlashes.getLast? = some name) : name ≠ "" := by
  rw [Path.withoutSlashes, List.getLast?_reverse] at last
  have first := List.head?_dropWhile_not (fun name : String => decide (name = "")) path.reverse
  rw [last] at first
  simpa using first

theorem IsTree.makeDirectory (tree : disk.IsTree) (made : disk.makeDirectory path = .ok after) :
    after.IsTree := by
  obtain ⟨-, home, name, -, found, -, -, -, free, rfl⟩ := makeDirectory_ok made
  obtain ⟨left, parent, enters, rest⟩ := exists_enters_of_append found (by simp)
  obtain rfl : parent = home := by
    rw [locateFrom_of_stays rfl, locateFrom_nil] at rest
    exact Except.ok.inj rest
  exact tree.put (enters.directory tree rfl) (by simp [free]) fun file => by cases file

/-- A disk stays a tree when directories are made, whether or not all of them can be made. -/
theorem IsTree.makeDirectories (tree : disk.IsTree) (path : Path) :
    (disk.makeDirectories path).2.IsTree :=
  makeDirectories_keeps IsTree tree (fun before made => before.makeDirectory made) path

/-- Directories take no numbers of files. -/
theorem filesMade_makeDirectories (disk : Disk) (path : Path) :
    (disk.makeDirectories path).2.filesMade = disk.filesMade := by
  refine makeDirectories_keeps (fun after => after.filesMade = disk.filesMade) rfl
    (fun same made => ?_) path
  obtain ⟨-, home, name, -, -, -, -, -, -, rfl⟩ := makeDirectory_ok made
  exact same

/-- Nothing is made where a path enters a directory already. -/
theorem makeDirectories_of_enters (tree : disk.IsTree) (readable : path.fault? = none)
    (enters : disk.Enters mostLinks [] path left home) :
    disk.makeDirectories path = (.ok (), disk) := by
  by_cases root : path = []
  · rw [makeDirectories, if_pos root]
  have dir := enters.directory tree rfl
  have located : disk.locate path = .ok home := by
    rw [locate, readable]
    exact enters.locateFrom
  have known : disk.makeDirectory path = .error .alreadyExists := by
    rw [makeDirectory, readable]
    cases last : path.withoutSlashes.getLast? with
    | none => rfl
    | some name =>
      obtain ⟨slashes, whole, all⟩ := withoutSlashes_append path
      obtain ⟨front, named⟩ := List.getLast?_eq_some_iff.1 last
      have found := enters.locateFrom
      rw [whole, named, List.append_assoc] at found
      obtain ⟨between, parent, way, onward⟩ := exists_enters_of_append found (by simp)
      have here : disk.locateFrom mostLinks [] (front ++ ["."]) = .ok parent := by
        rw [way.locateFrom_append, locateFrom_of_stays rfl, locateFrom_nil]
      simp only [named, List.dropLast_concat, here]
      -- the last name is one that stays or goes up, or it stands for something
      rcases locateFrom_cons_ok onward with ⟨stays, -⟩ | ⟨rfl, -⟩ | ⟨proper, next⟩
      · simp only [Path.stays, getLast?_withoutSlashes last, decide_false, Bool.false_or,
          decide_eq_true_eq] at stays
        simp [stays]
      · simp
      · have moves := proper.moves
        simp only [Path.stays, getLast?_withoutSlashes last, decide_false, Bool.false_or] at moves
        simp only [moves, proper.descends, decide_false, Bool.or_self, Bool.false_eq_true, if_false,
          if_neg proper.short]
        rcases next with ⟨inside, -⟩ | ⟨target, _, -, link, -⟩ | ⟨-, ended, ends⟩
        · simp only [inside]
        · simp only [link]
        · exact absurd (ended ▸ dir) ends.1
  rw [makeDirectories, if_neg root, known]
  simp [unlessDirectory, isDirectory, located, dir]

end IngestLedger.Disk
