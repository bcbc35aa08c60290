import IngestLedger.Bytes

/-!
# A disk

A disk is a tree of directories, files and symbolic links, as far as keeping a store and its lock
needs it. Paths lead from the root of the disk; links are followed from the root too. A path that
ends in a slash or in "." leads to a directory or nowhere. Each operation answers with its result,
or with the reason that the operating system gives.

Main definitions:

* `Disk.locate`: the place that a path leads to.
* `Disk.read`, `Disk.write`, `Disk.makeDirectories`, `Disk.rename`: the operations on files.
-/

namespace IngestLedger

/-- The names that lead from the root to a place. -/
abbrev Place := List String

/-- A path as it is written: what stands between its slashes, which may be empty. -/
abbrev Path := List String

namespace Path

/-- The path that a text writes. -/
def ofText (text : String) : Path := text.splitOn "/"

/-- Whether a name stays in the directory that it is looked up in. -/
def stays (name : String) : Bool := name = "" || name = "."

/-- The path as a text, from the first name that leads anywhere. -/
def text (path : Path) : String := String.intercalate "/" (path.dropWhile stays)

/-- The path of a name in a directory; a slash at the end of the directory is not doubled. -/
def child (directory : Path) (name : String) : Path :=
  if directory.getLast? = some "" then directory.dropLast ++ [name] else directory ++ [name]

/-- The path without the slashes at its end. -/
def withoutSlashes (path : Path) : Path := (path.reverse.dropWhile (· = "")).reverse

/-- The path without the names at its end that lead nowhere. -/
def trimmed (path : Path) : Path := (path.reverse.dropWhile stays).reverse

/-- The path of the directory that a path lies in: the root lies in itself. -/
def parent (path : Path) : Path := trimmed path.trimmed.dropLast

theorem length_trimmed_le (path : Path) : path.trimmed.length ≤ path.length := by
  simpa [trimmed] using (List.dropWhile_sublist stays (l := path.reverse)).length_le

/-- A path that is not empty is longer than the path of the directory that it lies in. -/
theorem length_parent_lt {path : Path} (h : path ≠ []) : path.parent.length < path.length := by
  have hpath := List.length_pos_iff.2 h
  have htrimmed := path.length_trimmed_le
  have hparent := length_trimmed_le path.trimmed.dropLast
  rw [List.length_dropLast] at hparent
  rw [parent]
  omega

/-- The greatest number of bytes of a name. -/
def longestName : Nat := 255

/-- The greatest number of bytes of a path, without those that lead to the root. -/
def longest : Nat := 4079

end Path

/-- What stands at a place. A file keeps its number wherever it is moved, and no other file gets
it. -/
inductive Node where
  | file (number : Nat) (content : Bytes)
  | directory
  | link (target : Path)
  deriving DecidableEq, Repr

/-- Why an operation fails. -/
inductive DiskError where
  | notFound
  | alreadyExists
  | notADirectory
  | isADirectory
  | nameTooLong
  | tooManyLinks
  | invalidName
  deriving DecidableEq, Repr

/-- The reason as the operating system words it. -/
def DiskError.message : DiskError → String
  | .notFound => "No such file or directory (os error 2)"
  | .alreadyExists => "File exists (os error 17)"
  | .notADirectory => "Not a directory (os error 20)"
  | .isADirectory => "Is a directory (os error 21)"
  | .nameTooLong => "File name too long (os error 36)"
  | .tooManyLinks => "Too many levels of symbolic links (os error 40)"
  | .invalidName => "file name contained an unexpected NUL byte"

/-- Why a path cannot be looked up at all. -/
def Path.fault? (path : Path) : Option DiskError :=
  if path.any fun name => name.toList.contains '\x00' then some .invalidName
  else if (String.intercalate "/" path).utf8ByteSize > Path.longest then some .nameTooLong
  else none

/-- What stands where, and how many files have been made so far. The root is a directory. -/
structure Disk where
  nodes : List (Place × Node)
  filesMade : Nat
  deriving DecidableEq, Repr

namespace Disk

/-- The disk with nothing but its root. -/
def empty : Disk := ⟨[], 0⟩

instance : Inhabited Disk := ⟨empty⟩

/-- What stands at a place. -/
def node? (disk : Disk) (place : Place) : Option Node :=
  if place = [] then some .directory else disk.nodes.lookup place

/-- Put something at a place. -/
def put (disk : Disk) (place : Place) (node : Node) : Disk :=
  { disk with nodes := (place, node) :: disk.nodes.filter fun n => n.1 ≠ place }

/-- Take away what stands at a place and below it. -/
def remove (disk : Disk) (place : Place) : Disk :=
  { disk with nodes := disk.nodes.filter fun n => !place.isPrefixOf n.1 }

/-- Put a content at a place, into the file that is there or into a new one. -/
def putFile (disk : Disk) (place : Place) (content : Bytes) : Disk :=
  match disk.node? place with
  | some (.file number _) => disk.put place (.file number content)
  | _ => { disk with filesMade := disk.filesMade + 1 }.put place (.file disk.filesMade content)

/-- The place that a path leads to from the directory `base`, when `follow` is the answer for a link
with what is left of the path behind it. The last name may stand for nothing yet. -/
def walk (disk : Disk) (follow : Path → Except DiskError Place) (base : Place) :
    Path → Except DiskError Place
  | [] => .ok base
  | name :: ahead =>
    if Path.stays name then disk.walk follow base ahead
    else if name = ".." then disk.walk follow base.dropLast ahead
    else if name.utf8ByteSize > Path.longestName then .error .nameTooLong
    else
      let place := base ++ [name]
      match disk.node? place with
      | some .directory => disk.walk follow place ahead
      | some (.file ..) => if ahead.isEmpty then .ok place else .error .notADirectory
      | some (.link target) => follow (target ++ ahead)
      | none => if ahead.isEmpty then .ok place else .error .notFound

/-- The place that a path leads to from a directory, when at most `links` links are followed, each
from the root. -/
def locateFrom (disk : Disk) : (links : Nat) → Place → Path → Except DiskError Place
  | 0 => disk.walk fun _ => .error .tooManyLinks
  | links + 1 => disk.walk (disk.locateFrom links [])

@[simp] theorem locateFrom_nil (disk : Disk) (links : Nat) (base : Place) :
    disk.locateFrom links base [] = .ok base := by
  cases links <;> rfl

theorem locateFrom_cons (disk : Disk) (links : Nat) (base : Place) (name : String)
    (ahead : Path) : disk.locateFrom links base (name :: ahead) =
      if Path.stays name then disk.locateFrom links base ahead
      else if name = ".." then disk.locateFrom links base.dropLast ahead
      else if name.utf8ByteSize > Path.longestName then .error .nameTooLong
      else
        match disk.node? (base ++ [name]) with
        | some .directory => disk.locateFrom links (base ++ [name]) ahead
        | some (.file ..) => if ahead.isEmpty then .ok (base ++ [name]) else .error .notADirectory
        | some (.link target) =>
          match links with
          | 0 => .error .tooManyLinks
          | links + 1 => disk.locateFrom links [] (target ++ ahead)
        | none => if ahead.isEmpty then .ok (base ++ [name]) else .error .notFound := by
  cases links <;> rfl

/-- The greatest number of links that one path may lead over. -/
def mostLinks : Nat := 40

/-- The place that a path leads to. -/
def locate (disk : Disk) (path : Path) : Except DiskError Place :=
  match path.fault? with
  | some e => .error e
  | none => disk.locateFrom mostLinks [] path

/-- The place of the last name of a path itself, which is not followed if it is a link. -/
def locateEntry (disk : Disk) (path : Path) : Except DiskError Place :=
  match path.getLast? with
  | none => .ok []
  | some name =>
    if Path.stays name || name = ".." then disk.locate path
    else
      match disk.locate path.dropLast with
      | .ok parent =>
        if name.utf8ByteSize > Path.longestName then .error .nameTooLong
        else if disk.node? parent = some .directory then .ok (parent ++ [name])
        else .error .notFound
      | .error e => .error e

/-- Whether a path leads to something. -/
def hasNode (disk : Disk) (path : Path) : Bool :=
  match disk.locate path with
  | .ok place => (disk.node? place).isSome
  | .error _ => false

/-- Whether a path leads to a directory. -/
def isDirectory (disk : Disk) (path : Path) : Bool :=
  match disk.locate path with
  | .ok place => disk.node? place = some .directory
  | .error _ => false

/-- The content of a file. -/
def read (disk : Disk) (path : Path) : Except DiskError Bytes :=
  match disk.locate path with
  | .error e => .error e
  | .ok place =>
    match disk.node? place with
    | some (.file _ content) => .ok content
    | some _ => .error .isADirectory
    | none => .error .notFound

/-- Give a file its content; a file that is not there is made. -/
def write (disk : Disk) (path : Path) (content : Bytes) : Except DiskError Disk :=
  match disk.locate path with
  | .error e => .error e
  | .ok place =>
    match disk.node? place with
    | some .directory => .error .isADirectory
    | _ => .ok (disk.putFile place content)

/-- Make one directory in a directory that is there. Links on the way to it are followed; where
something stands already, a link too, nothing is made. -/
def makeDirectory (disk : Disk) (path : Path) : Except DiskError Disk :=
  match path.fault?, path.withoutSlashes.getLast? with
  | some e, _ => .error e
  | none, none => .error .alreadyExists
  | none, some name =>
    match disk.locateFrom mostLinks [] (path.withoutSlashes.dropLast ++ ["."]) with
    | .error e => .error e
    | .ok home =>
      if name = "." || name = ".." then .error .alreadyExists
      else if name.utf8ByteSize > Path.longestName then .error .nameTooLong
      else
        match disk.node? (home ++ [name]) with
        | some _ => .error .alreadyExists
        | none => .ok (disk.put (home ++ [name]) .directory)

/-- The answer when a directory could not be made: an error, unless there is one already. -/
def unlessDirectory (disk : Disk) (path : Path) (e : DiskError) : Except DiskError Unit :=
  if disk.isDirectory path then .ok () else .error e

/-- Make a directory and those that it lies in, as far as they are not there: the answer, and the
disk afterwards. Those that were made before an error stay. -/
def makeDirectories (disk : Disk) (path : Path) : Except DiskError Unit × Disk :=
  if path = [] then (.ok (), disk)
  else
    match disk.makeDirectory path with
    | .ok disk => (.ok (), disk)
    | .error .notFound =>
      match makeDirectories disk path.parent with
      | (.error e, disk) => (.error e, disk)
      | (.ok (), disk) =>
        match disk.makeDirectory path with
        | .ok disk => (.ok (), disk)
        | .error e => (disk.unlessDirectory path e, disk)
    | .error e => (disk.unlessDirectory path e, disk)
termination_by path.length
decreasing_by exact Path.length_parent_lt ‹_›

/-- Let a file take the place of what another path names; a directory does not give way. -/
def rename (disk : Disk) (source target : Path) : Except DiskError Disk :=
  match disk.locateEntry source, disk.locateEntry target with
  | .error e, _ => .error e
  | _, .error e => .error e
  | .ok source, .ok target =>
    match disk.node? source, disk.node? target with
    | none, _ => .error .notFound
    | _, some .directory => .error .isADirectory
    | some node, _ => .ok ((disk.remove source).put target node)

/-- Put a link where nothing stands. -/
def link (disk : Disk) (target path : Path) : Except DiskError Disk :=
  match disk.locateEntry path with
  | .error e => .error e
  | .ok place =>
    match disk.node? place with
    | some _ => .error .alreadyExists
    | none => .ok (disk.put place (.link target))

/-- The names in a directory, in ascending order. -/
def names (disk : Disk) (path : Path) : List String :=
  match disk.locate path with
  | .error _ => []
  | .ok place =>
    let inside := disk.nodes.filterMap fun (path, _) =>
      if path ≠ [] && path.dropLast = place then path.getLast? else none
    inside.mergeSort fun a b => a ≤ b

end Disk

end IngestLedger
