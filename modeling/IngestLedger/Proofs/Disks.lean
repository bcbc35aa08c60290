import IngestLedger.Store.Backend

/-!
# Finding a file again

On a disk without links a path leads to the place that its names spell out, as long as what stands
on the way are directories. Making directories, writing another file and renaming it leave those
directories where they are, so they do not hide the file of a store.

Main definitions:

* `Path.placeFrom`: the place that the names of a path spell out.
* `Disk.Leads`: a path leads to a place, without a link on the way.
* `Disk.GrowsTo`: new directories where nothing was.

Main statements:

* `Disk.locateFrom_eq_ok_iff`: on a disk without links that is where paths are located.
* `Disk.Leads.of_keeps`: a path leads where it led before, when the directories on its way are kept.
* `Disk.makeDirectories_keeps`: what is kept when directories are made one after another.
* `Disk.growsTo_makeDirectories`: making directories puts them where nothing was.
-/

namespace IngestLedger

/-- The place that the names of a path spell out from a directory. -/
def Path.placeFrom (base : Place) : Path → Place
  | [] => base
  | name :: ahead =>
    if stays name then placeFrom base ahead
    else if name = ".." then placeFrom base.dropLast ahead
    else placeFrom (base ++ [name]) ahead

/-- A name that can stand for a file in a directory. -/
structure Path.IsFileName (name : String) : Prop where
  moves : stays name = false
  descends : name ≠ ".."
  short : ¬ name.utf8ByteSize > longestName

theorem Path.placeFrom_concat {name : String} (proper : IsFileName name) (base : Place)
    (front : Path) : placeFrom base (front ++ [name]) = placeFrom base front ++ [name] := by
  induction front generalizing base with
  | nil => simp [placeFrom, proper.moves, proper.descends]
  | cons head front ih =>
    simp only [List.cons_append, placeFrom]
    split
    · exact ih base
    · split
      · exact ih base.dropLast
      · exact ih (base ++ [head])

namespace Disk

variable {disk after : Disk} {place p : Place} {node : Node}

/-! ### What stands where -/

/-- Among the nodes at some places, those places have what they had. -/
theorem lookup_filter (keep : Place → Bool) (nodes : List (Place × Node)) (p : Place) :
    (nodes.filter fun n => keep n.1).lookup p = if keep p then nodes.lookup p else none := by
  induction nodes with
  | nil => simp
  | cons head nodes ih =>
    obtain ⟨q, node⟩ := head
    by_cases same : p = q
    · subst same
      cases kept : keep p with
      | true => simp [kept]
      | false => simpa [List.filter_cons, kept] using ih
    · have differ : (p == q) = false := beq_false_of_ne same
      rw [List.lookup_cons, differ, ← ih, List.filter_cons]
      split
      · rw [List.lookup_cons, differ]
      · rfl

theorem node?_put_of_ne (h : p ≠ place) (node : Node) :
    (disk.put place node).node? p = disk.node? p := by
  have differ : (p == place) = false := beq_false_of_ne h
  have kept := lookup_filter (fun q => decide (q ≠ place)) disk.nodes p
  simp only [h, ne_eq, not_false_eq_true, decide_true, if_true] at kept
  simp only [node?, put, List.lookup_cons, differ, ne_eq, kept]

theorem node?_put_self (h : place ≠ []) (node : Node) :
    (disk.put place node).node? place = some node := by
  simp [node?, put, h]

/-- Taking away leaves what does not stand below the place. -/
theorem node?_remove (disk : Disk) (place p : Place) : (disk.remove place).node? p =
    if p ≠ [] ∧ place <+: p then none else disk.node? p := by
  have kept := lookup_filter (fun q => !place.isPrefixOf q) disk.nodes p
  by_cases root : p = []
  · simp [node?, root]
  · simp only [node?, remove, kept, root, ne_eq, not_false_eq_true, true_and, if_false]
    by_cases below : place <+: p
    · have gone : place.isPrefixOf p = true := List.isPrefixOf_iff_prefix.2 below
      rw [if_pos below, gone]
      rfl
    · have stays : place.isPrefixOf p = false :=
        Bool.eq_false_iff.2 fun h => below (List.isPrefixOf_iff_prefix.1 h)
      rw [if_neg below, stays]
      rfl

/-- A content that is put at a place stands there in a file, and nothing else changes. -/
theorem node?_putFile (disk : Disk) (place : Place) (content : Bytes) :
    (∀ p, p ≠ place → (disk.putFile place content).node? p = disk.node? p) ∧
    (place ≠ [] → ∃ number, (disk.putFile place content).node? place =
      some (.file number content)) := by
  unfold putFile
  split
  · exact ⟨fun p other => node?_put_of_ne other _, fun proper => ⟨_, node?_put_self proper _⟩⟩
  · refine ⟨fun p other => ?_, fun proper => ⟨_, node?_put_self proper _⟩⟩
    exact (node?_put_of_ne other _).trans rfl

/-! ### Steps of a path -/

variable {links : Nat} {base : Place} {path ahead : Path} {name : String}

theorem locateFrom_of_stays (stays : Path.stays name = true) :
    disk.locateFrom links base (name :: ahead) = disk.locateFrom links base ahead := by
  rw [locateFrom_cons, if_pos stays]

theorem locateFrom_up :
    disk.locateFrom links base (".." :: ahead) = disk.locateFrom links base.dropLast ahead := by
  rw [locateFrom_cons, if_neg (by decide), if_pos rfl]

theorem locateFrom_of_directory (proper : Path.IsFileName name)
    (dir : disk.node? (base ++ [name]) = some .directory) :
    disk.locateFrom links base (name :: ahead) = disk.locateFrom links (base ++ [name]) ahead := by
  rw [locateFrom_cons, if_neg (by simp [proper.moves]), if_neg proper.descends, if_neg proper.short]
  simp only [dir]

theorem locateFrom_of_link (proper : Path.IsFileName name) {target : Path}
    (link : disk.node? (base ++ [name]) = some (.link target)) :
    disk.locateFrom (links + 1) base (name :: ahead) =
      disk.locateFrom links [] (target ++ ahead) := by
  rw [locateFrom_cons, if_neg (by simp [proper.moves]), if_neg proper.descends, if_neg proper.short]
  simp only [link]

/-- Neither a directory nor a link: what a path may end at. -/
def IsEnd (disk : Disk) (place : Place) : Prop :=
  disk.node? place ≠ some .directory ∧ ∀ target, disk.node? place ≠ some (.link target)

theorem locateFrom_of_isEnd (proper : Path.IsFileName name)
    (ends : disk.IsEnd (base ++ [name])) :
    disk.locateFrom links base [name] = .ok (base ++ [name]) := by
  rw [locateFrom_cons, if_neg (by simp [proper.moves]), if_neg proper.descends, if_neg proper.short]
  cases here : disk.node? (base ++ [name]) with
  | none => simp
  | some node =>
    cases node with
    | directory => exact absurd here ends.1
    | file number content => simp
    | link target => exact absurd here (ends.2 target)

/-- The first step of a path that leads somewhere. -/
theorem locateFrom_cons_ok (found : disk.locateFrom links base (name :: ahead) = .ok place) :
    (Path.stays name = true ∧ disk.locateFrom links base ahead = .ok place) ∨
    (name = ".." ∧ disk.locateFrom links base.dropLast ahead = .ok place) ∨
    (Path.IsFileName name ∧
      ((disk.node? (base ++ [name]) = some .directory ∧
          disk.locateFrom links (base ++ [name]) ahead = .ok place) ∨
        (∃ target left, links = left + 1 ∧ disk.node? (base ++ [name]) = some (.link target) ∧
          disk.locateFrom left [] (target ++ ahead) = .ok place) ∨
        (ahead = [] ∧ place = base ++ [name] ∧ disk.IsEnd (base ++ [name])))) := by
  by_cases stays : Path.stays name = true
  · rw [locateFrom_of_stays stays] at found
    exact .inl ⟨stays, found⟩
  by_cases up : name = ".."
  · rw [up, locateFrom_up] at found
    exact .inr (.inl ⟨up, found⟩)
  by_cases long : name.utf8ByteSize > Path.longestName
  · rw [locateFrom_cons, if_neg stays, if_neg up, if_pos long] at found
    cases found
  have proper : Path.IsFileName name := ⟨Bool.eq_false_iff.2 stays, up, long⟩
  refine .inr (.inr ⟨proper, ?_⟩)
  rw [locateFrom_cons, if_neg stays, if_neg up, if_neg long] at found
  -- what stands under the name decides how the path goes on
  cases here : disk.node? (base ++ [name]) with
  | none =>
    simp only [here] at found
    split at found
    · rename_i last
      obtain rfl := Except.ok.inj found
      exact .inr (.inr ⟨List.isEmpty_iff.1 last, rfl, by simp [IsEnd, here]⟩)
    · cases found
  | some node =>
    cases node with
    | directory =>
      simp only [here] at found
      exact .inl ⟨rfl, found⟩
    | file number content =>
      simp only [here] at found
      split at found
      · rename_i last
        obtain rfl := Except.ok.inj found
        exact .inr (.inr ⟨List.isEmpty_iff.1 last, rfl, by simp [IsEnd, here]⟩)
      · cases found
    | link target =>
      simp only [here] at found
      cases links with
      | zero => cases found
      | succ links => exact .inr (.inl ⟨target, links, rfl, rfl, found⟩)

/-! ### Where paths lead -/

/-- A disk without links. -/
def IsLinkless (disk : Disk) : Prop := ∀ place target, disk.node? place ≠ some (.link target)

/-- A directory that lies in directories. -/
def HasDirectory (disk : Disk) (place : Place) : Prop :=
  ∀ front, front <+: place → disk.node? front = some .directory

theorem hasDirectory_root (disk : Disk) : disk.HasDirectory [] := by
  intro front inside
  rw [List.prefix_nil.1 inside]
  rfl

theorem HasDirectory.dropLast (h : disk.HasDirectory place) : disk.HasDirectory place.dropLast :=
  fun front inside => h front (inside.trans (List.dropLast_prefix place))

theorem HasDirectory.concat (h : disk.HasDirectory place) {name : String}
    (inside : disk.node? (place ++ [name]) = some .directory) :
    disk.HasDirectory (place ++ [name]) := by
  intro front before
  rcases List.prefix_concat_iff.1 before with rfl | before
  · exact inside
  · exact h front before

/-- A path leads from a directory to a place, without a link on the way. -/
inductive Leads (disk : Disk) : Place → Path → Place → Prop
  | here (base : Place) : Leads disk base [] base
  | stay {base place : Place} {name : String} {ahead : Path} (stays : Path.stays name = true)
      (onward : Leads disk base ahead place) : Leads disk base (name :: ahead) place
  | up {base place : Place} {ahead : Path} (onward : Leads disk base.dropLast ahead place) :
      Leads disk base (".." :: ahead) place
  | enter {base place : Place} {name : String} {ahead : Path} (proper : Path.IsFileName name)
      (dir : disk.node? (base ++ [name]) = some .directory)
      (onward : Leads disk (base ++ [name]) ahead place) : Leads disk base (name :: ahead) place
  | last {base : Place} {name : String} (proper : Path.IsFileName name)
      (other : disk.node? (base ++ [name]) ≠ some .directory) :
      Leads disk base [name] (base ++ [name])

/-- On a disk without links the places of paths are those that they lead to. -/
theorem locateFrom_eq_ok_iff (linkless : disk.IsLinkless) :
    disk.locateFrom links base path = .ok place ↔ disk.Leads base path place := by
  constructor
  · intro found
    -- without links no step starts again from the root, so the path itself gets shorter
    induction path generalizing base with
    | nil =>
      rw [locateFrom_nil] at found
      exact Except.ok.inj found ▸ .here base
    | cons name ahead ih =>
      rcases locateFrom_cons_ok found with ⟨stays, onward⟩ | ⟨rfl, onward⟩ |
        ⟨proper, ⟨dir, onward⟩ | ⟨target, _, -, link, -⟩ | ⟨rfl, rfl, ends⟩⟩
      · exact .stay stays (ih onward)
      · exact .up (ih onward)
      · exact .enter proper dir (ih onward)
      · exact absurd link (linkless _ _)
      · exact .last proper ends.1
  · intro leads
    induction leads with
    | here base => rw [locateFrom_nil]
    | stay stays _ ih => rw [locateFrom_of_stays stays, ih]
    | up _ ih => rw [locateFrom_up, ih]
    | enter proper dir _ ih => rw [locateFrom_of_directory proper dir, ih]
    | last proper other => rw [locateFrom_of_isEnd proper ⟨other, linkless _⟩]

/-- A path leads to the place that its names spell out. -/
theorem Leads.eq_placeFrom (h : disk.Leads base path place) : place = path.placeFrom base := by
  induction h with
  | here base => rfl
  | stay stays _ ih => rw [Path.placeFrom, if_pos stays, ih]
  | up _ ih => rw [Path.placeFrom, if_neg (by decide), if_pos rfl, ih]
  | enter proper _ _ ih =>
    rw [Path.placeFrom, if_neg (by simp [proper.moves]), if_neg proper.descends, ih]
  | last proper _ =>
    rw [Path.placeFrom, if_neg (by simp [proper.moves]), if_neg proper.descends, Path.placeFrom]

/-- A file name leads to its place in a directory. -/
theorem leads_name {name : String} (proper : Path.IsFileName name) (base : Place) :
    disk.Leads base [name] (base ++ [name]) := by
  by_cases dir : disk.node? (base ++ [name]) = some .directory
  · exact .enter proper dir (.here _)
  · exact .last proper dir

/-- A path leads where it led before, when the directories on its way are kept. -/
theorem Leads.of_keeps (h : disk.Leads base path place) (inside : disk.HasDirectory base)
    (kept : ∀ p, disk.HasDirectory p → after.node? p = some .directory) :
    after.Leads base path place := by
  induction h with
  | here base => exact .here base
  | stay stays _ ih => exact .stay stays (ih inside)
  | up _ ih => exact .up (ih inside.dropLast)
  | enter proper dir _ ih =>
    have deeper := inside.concat dir
    exact .enter proper (kept _ deeper) (ih deeper)
  | last proper _ => exact leads_name proper _

/-- A path to a directory leads there through directories, and on to the files in it. -/
theorem Leads.concat (h : disk.Leads base path place) (inside : disk.HasDirectory base)
    (dir : disk.node? place = some .directory) {name : String} (proper : Path.IsFileName name) :
    disk.HasDirectory place ∧ disk.Leads base (path ++ [name]) (place ++ [name]) := by
  induction h with
  | here base => exact ⟨inside, leads_name proper base⟩
  | stay stays _ ih =>
    obtain ⟨reached, onward⟩ := ih inside dir
    exact ⟨reached, .stay stays onward⟩
  | up _ ih =>
    obtain ⟨reached, onward⟩ := ih inside.dropLast dir
    exact ⟨reached, .up onward⟩
  | enter front deeper _ ih =>
    obtain ⟨reached, onward⟩ := ih (inside.concat deeper) dir
    exact ⟨reached, .enter front deeper onward⟩
  | last _ other => exact absurd dir other

/-! ### Making directories -/

/-- New directories where nothing was. -/
def GrowsTo (disk after : Disk) : Prop :=
  ∀ p, after.node? p = disk.node? p ∨ disk.node? p = none ∧ after.node? p = some .directory

theorem GrowsTo.refl (disk : Disk) : disk.GrowsTo disk := fun _ => .inl rfl

theorem GrowsTo.trans {between : Disk} (h : disk.GrowsTo between) (h' : between.GrowsTo after) :
    disk.GrowsTo after := by
  intro p
  rcases h p with same | ⟨absent, made⟩
  · rw [← same]
    exact h' p
  · refine .inr ⟨absent, ?_⟩
    rcases h' p with same | ⟨absent', -⟩
    · rw [same, made]
    · rw [made] at absent'
      cases absent'

theorem GrowsTo.isLinkless (h : disk.GrowsTo after) (linkless : disk.IsLinkless) :
    after.IsLinkless := by
  intro place target link
  rcases h place with same | ⟨-, made⟩
  · exact linkless place target (same ▸ link)
  · rw [made] at link
    cases link

/-- What is there stays. -/
theorem GrowsTo.node?_eq (h : disk.GrowsTo after) (here : disk.node? p = some node) :
    after.node? p = some node := by
  rcases h p with same | ⟨absent, -⟩
  · rw [same, here]
  · rw [here] at absent
    cases absent

/-- No file is new. -/
theorem GrowsTo.file (h : disk.GrowsTo after) {number : Nat} {content : Bytes}
    (here : after.node? p = some (.file number content)) :
    disk.node? p = some (.file number content) := by
  rcases h p with same | ⟨-, made⟩
  · rw [← same, here]
  · rw [made] at here
    cases here

/-- A directory that is made stands where nothing was, under the last name of its path. -/
theorem makeDirectory_ok (made : disk.makeDirectory path = .ok after) :
    path.fault? = none ∧ ∃ home name, path.withoutSlashes.getLast? = some name ∧
      disk.locateFrom mostLinks [] (path.withoutSlashes.dropLast ++ ["."]) = .ok home ∧
      name ≠ "." ∧ name ≠ ".." ∧ ¬ name.utf8ByteSize > Path.longestName ∧
      disk.node? (home ++ [name]) = none ∧ after = disk.put (home ++ [name]) .directory := by
  unfold makeDirectory at made
  split at made
  · cases made
  · cases made
  · rename_i name readable last
    split at made
    · cases made
    · rename_i home found
      split at made
      · cases made
      · rename_i proper
        split at made
        · cases made
        · rename_i short
          split at made
          · cases made
          · rename_i free
            simp only [Bool.or_eq_true, decide_eq_true_eq, not_or] at proper
            exact ⟨readable, home, name, last, found, proper.1, proper.2, short, free,
              (Except.ok.inj made).symm⟩

/-- What making a directory keeps, making it with those that it stands in keeps too, whether or not
all of them can be made. -/
theorem makeDirectories_keeps (keeps : Disk → Prop) (here : keeps disk)
    (step : ∀ {path before after}, keeps before → makeDirectory before path = .ok after →
      keeps after)
    (path : Path) : keeps (disk.makeDirectories path).2 := by
  fun_induction makeDirectories disk path with
  | case1 => exact here
  | case2 path _ after made => exact step here made
  | case3 path _ _ e between parents ih =>
    rw [parents] at ih
    exact ih
  | case4 path _ _ between parents after made ih =>
    rw [parents] at ih
    exact step ih made
  | case5 path _ _ between parents e _ ih =>
    rw [parents] at ih
    exact ih
  | case6 => exact here

theorem growsTo_makeDirectory (made : disk.makeDirectory path = .ok after) :
    disk.GrowsTo after := by
  obtain ⟨-, home, name, -, -, -, -, -, absent, rfl⟩ := makeDirectory_ok made
  intro p
  by_cases new : p = home ++ [name]
  · subst new
    exact .inr ⟨absent, node?_put_self (by simp) _⟩
  · exact .inl (node?_put_of_ne new _)

/-- Making directories puts them where nothing was, whether or not all of them can be made. -/
theorem growsTo_makeDirectories (disk : Disk) (path : Path) :
    disk.GrowsTo (disk.makeDirectories path).2 :=
  makeDirectories_keeps disk.GrowsTo (.refl disk)
    (fun grown made => grown.trans (growsTo_makeDirectory made)) path

/-! ### Files -/

variable {front : Path} {other : String} {content : Bytes}

/-- On a disk without links a path leads where it is located. -/
theorem locate_eq_ok_iff (linkless : disk.IsLinkless) :
    disk.locate path = .ok place ↔ path.fault? = none ∧ disk.Leads [] path place := by
  unfold locate
  cases fault : path.fault? with
  | some e => simp
  | none => simp [locateFrom_eq_ok_iff linkless]

/-- A file is read where its path leads to. -/
theorem read_eq_ok_iff (linkless : disk.IsLinkless) : disk.read path = .ok content ↔
    path.fault? = none ∧ ∃ place number, disk.Leads [] path place ∧
      disk.node? place = some (.file number content) := by
  unfold read
  constructor
  · intro found
    split at found
    · cases found
    · rename_i place located
      obtain ⟨fault, leads⟩ := (locate_eq_ok_iff linkless).1 located
      split at found
      · rename_i number content' file
        obtain rfl := Except.ok.inj found
        exact ⟨fault, place, number, leads, file⟩
      · cases found
      · cases found
  · rintro ⟨fault, place, number, leads, file⟩
    simp only [(locate_eq_ok_iff linkless).2 ⟨fault, leads⟩, file]

/-- A file is written where its path is located, unless there is a directory. -/
theorem write_ok (written : disk.write path content = .ok after) : ∃ place,
    disk.locate path = .ok place ∧ disk.node? place ≠ some .directory ∧
      after = disk.putFile place content := by
  unfold write at written
  split at written
  · cases written
  · rename_i place located
    split at written
    · cases written
    · rename_i other
      exact ⟨place, located, other, (Except.ok.inj written).symm⟩

theorem locateEntry_concat_ok (proper : Path.IsFileName name)
    (found : disk.locateEntry (front ++ [name]) = .ok place) : ∃ parent,
      disk.locate front = .ok parent ∧ disk.node? parent = some .directory ∧
        place = parent ++ [name] := by
  simp only [locateEntry, List.getLast?_concat, List.dropLast_concat, proper.moves,
    proper.descends, decide_false, Bool.or_false, Bool.false_eq_true, if_false] at found
  split at found
  · rename_i parent located
    rw [if_neg proper.short] at found
    split at found
    · rename_i dir
      exact ⟨parent, located, dir, (Except.ok.inj found).symm⟩
    · cases found
  · cases found

/-- A file that is renamed takes its place beside the one that it had. -/
theorem rename_ok (proper : Path.IsFileName name) (proper' : Path.IsFileName other)
    (renamed : disk.rename (front ++ [other]) (front ++ [name]) = .ok after) : ∃ parent node,
      disk.locate front = .ok parent ∧ disk.node? parent = some .directory ∧
      disk.node? (parent ++ [other]) = some node ∧
      disk.node? (parent ++ [name]) ≠ some .directory ∧
      after = (disk.remove (parent ++ [other])).put (parent ++ [name]) node := by
  unfold rename at renamed
  split at renamed
  · cases renamed
  · cases renamed
  · rename_i source target found found'
    obtain ⟨parent, located, dir, rfl⟩ := locateEntry_concat_ok proper' found
    obtain ⟨parent', located', -, rfl⟩ := locateEntry_concat_ok proper found'
    obtain rfl := Except.ok.inj (located.symm.trans located')
    split at renamed
    · cases renamed
    · cases renamed
    · rename_i node here no_directory
      exact ⟨parent, node, located, dir, here, no_directory, (Except.ok.inj renamed).symm⟩

end Disk

end IngestLedger
