import Mailroom.Error
import Mailroom.Text.Sorted

/-!
# The disk

The disk is a finite map from paths to files and folders.  A file has an identity, which an open
handle keeps hold of when the file gets another name or none at all; it has a content and the
time of its last change.

* `Disk.resolve` follows a path, which may go through `.` and `..`; every name but the last must
  lead to a folder.
* The operations are those of a file system: `read`, `list`, `create`, `write`, `rename`,
  `removeFile`, `removeFolder`.  Each fails with a `Fault`, and a failed one changes nothing.
* A `Tree` is the content of one folder, and the view of the disk from outside.
-/

namespace Mailroom

/-! ## Paths -/

/-- A path: the names that lead to a place, beginning at the root of the disk. -/
abbrev Path := List Text

namespace Path

/-- The names in a text, parted by slashes.  A slash at the end asks for a folder. -/
def names (t : Text) : List Text :=
  let ps := Text.pieces (· == '/') t
  let kept := ps.filter (fun p => !p.isEmpty)
  if 1 < ps.length && ps.getLast? == some [] then kept ++ [['.']] else kept

/-- The place that a text names, seen from a place; a slash in front begins at the root. -/
def join (p : Path) (t : Text) : Path :=
  match t with
  | '/' :: _ => names t
  | _ => p ++ names t

/-- A path as text. -/
def render (p : Path) : Text := p.flatMap (fun name => '/' :: name)

end Path

/-! ## The disk -/

/-- The identity of a file. -/
abbrev FileId := Nat

/-- A file. -/
structure File where
  /-- Its identity. -/
  id : FileId
  /-- Its content. -/
  content : Bytes
  /-- When it was last changed. -/
  modified : Int
  deriving DecidableEq, Repr

/-- What a path leads to. -/
inductive Item where
  /-- A file. -/
  | file (f : File)
  /-- A folder. -/
  | folder
  deriving DecidableEq, Repr

/-- The disk. -/
structure Disk where
  /-- What is at each path but the root, which is a folder. -/
  items : List (Path × Item)
  /-- The identity that the next new file gets. -/
  nextId : FileId
  /-- The time of every change that is made now. -/
  clock : Int
  deriving Repr

namespace Disk

/-- A disk that holds nothing. -/
def empty (clock : Int) : Disk := ⟨[], 0, clock⟩

/-- What is at a path without `.` and `..`. -/
def item? (d : Disk) (p : Path) : Option Item :=
  if p = [] then some .folder else d.items.lookup p

/-- Puts something at a path, in place of what was there. -/
def put (d : Disk) (p : Path) (n : Item) : Disk :=
  { d with items := (p, n) :: d.items.filter (fun e => e.1 != p) }

/-- Takes away what is at a path. -/
def drop (d : Disk) (p : Path) : Disk :=
  { d with items := d.items.filter (fun e => e.1 != p) }

/-- The names inside a folder in increasing order, each with what it leads to. -/
def children (d : Disk) (p : Path) : List (Text × Item) :=
  let found := d.items.filterMap fun e =>
    match e.1.getLast? with
    | some name => if e.1.dropLast = p then some (name, e.2) else none
    | none => none
  found.mergeSort (fun a b => Text.le a.1 b.1)

/-! ## Following paths -/

/-- Follows names from a place.  The place has to be a folder as long as names follow. -/
def walk (d : Disk) (place : Path) : List Text → Except Fault Path
  | [] => .ok place
  | name :: names =>
    match d.item? place with
    | none => .error .notFound
    | some (.file _) => .error .notAFolder
    | some .folder =>
      if name = ['.'] then walk d place names
      else if name = ['.', '.'] then walk d place.dropLast names
      else walk d (place ++ [name]) names

/-- The path without `.` and `..` that a path leads to.  Nothing needs to be there yet. -/
def resolve (d : Disk) (p : Path) : Except Fault Path := walk d [] p

/-- What a path leads to. -/
def stat (d : Disk) (p : Path) : Except Fault Item := do
  let p ← d.resolve p
  match d.item? p with
  | some n => .ok n
  | none => .error .notFound

/-- Whether a path leads to a folder. -/
def isFolder (d : Disk) (p : Path) : Bool :=
  match d.stat p with
  | .ok .folder => true
  | _ => false

/-- Whether a path leads to a file. -/
def isFile (d : Disk) (p : Path) : Bool :=
  match d.stat p with
  | .ok (.file _) => true
  | _ => false

/-- Whether a path leads anywhere. -/
def exists? (d : Disk) (p : Path) : Bool := (d.stat p).toBool

/-- The file that a path leads to. -/
def file (d : Disk) (p : Path) : Except Fault File := do
  match ← d.stat p with
  | .file f => .ok f
  | .folder => .error .isAFolder

/-- The content of a file. -/
def read (d : Disk) (p : Path) : Except Fault Bytes := (d.file p).map File.content

/-- The names inside a folder in increasing order, each with what it leads to. -/
def list (d : Disk) (p : Path) : Except Fault (List (Text × Item)) := do
  let p ← d.resolve p
  match d.item? p with
  | some .folder => .ok (d.children p)
  | some (.file _) => .error .notAFolder
  | none => .error .notFound

/-! ## Changing the disk -/

/-- Makes an empty file, or empties the file that is there and keeps its identity. -/
def create (d : Disk) (p : Path) : Except Fault (FileId × Disk) := do
  let p ← d.resolve p
  match d.item? p with
  | some .folder => .error .isAFolder
  | some (.file f) => .ok (f.id, d.put p (.file ⟨f.id, [], d.clock⟩))
  | none => .ok (d.nextId, { d.put p (.file ⟨d.nextId, [], d.clock⟩) with nextId := d.nextId + 1 })

/-- A content with some bytes put at a place; zeros fill up what is missing before it. -/
def splice (content : Bytes) (place : Nat) (bytes : Bytes) : Bytes :=
  content.take place ++ List.replicate (place - content.length) 0 ++ bytes ++
    content.drop (place + bytes.length)

/-- Writes into the file of an identity, wherever it is; into no file if it has no name left. -/
def write (d : Disk) (id : FileId) (place : Nat) (bytes : Bytes) : Disk :=
  { d with items := d.items.map fun e =>
      match e.2 with
      | .file f =>
        if f.id = id then (e.1, .file ⟨id, splice f.content place bytes, d.clock⟩) else e
      | .folder => e }

/-- Moves everything below one path to another. -/
def moveBelow (d : Disk) (source target : Path) : Disk :=
  { d with items := d.items.map fun e =>
      if source.isPrefixOf e.1 then (target ++ e.1.drop source.length, e.2) else e }

/-- Gives a file or a folder another name.  A file takes the place of a file, a folder that of an
empty folder. -/
def rename (d : Disk) (source target : Path) : Except Fault Disk := do
  let source ← d.resolve source
  let target ← d.resolve target
  match d.item? source, d.item? target with
  | none, _ => .error .notFound
  | some (.file _), some .folder => .error .isAFolder
  | some (.file f), _ => .ok ((d.drop source).put target (.file f))
  | some .folder, t =>
    if source = target then .ok d
    else if source.isPrefixOf target then .error .insideItself
    else match t with
      | some (.file _) => .error .notAFolder
      | some .folder =>
        if (d.children target).isEmpty then .ok ((d.drop target).moveBelow source target)
        else .error .folderNotEmpty
      | none => .ok (d.moveBelow source target)

/-- Removes a file. -/
def removeFile (d : Disk) (p : Path) : Except Fault Disk := do
  let p ← d.resolve p
  match d.item? p with
  | some (.file _) => .ok (d.drop p)
  | some .folder => .error .isAFolder
  | none => .error .notFound

/-- Removes an empty folder. -/
def removeFolder (d : Disk) (p : Path) : Except Fault Disk := do
  let p ← d.resolve p
  match d.item? p with
  | some .folder =>
    if (d.children p).isEmpty then .ok (d.drop p) else .error .folderNotEmpty
  | some (.file _) => .error .notAFolder
  | none => .error .notFound

/-- Removes what is at a path and all below it. -/
def removeAll (d : Disk) (p : Path) : Except Fault Disk := do
  let p ← d.resolve p
  match d.item? p with
  | some _ => .ok { d with items := d.items.filter (fun e => !p.isPrefixOf e.1) }
  | none => .error .notFound

/-- Makes a folder, and the folders that lead to it. -/
def makeFolder (d : Disk) (p : Path) : Except Fault Disk :=
  ((List.range (p.length + 1)).map p.take).foldlM (fun d q =>
    match d.item? q with
    | some .folder => .ok d
    | some (.file _) => .error .notAFolder
    | none => .ok (d.put q .folder)) d

/-- Writes a whole file. -/
def save (d : Disk) (p : Path) (content : Bytes) : Except Fault Disk := do
  let (id, d) ← d.create p
  return d.write id 0 content

end Disk

/-! ## Trees -/

/-- A file or a folder with all that is in it. -/
inductive Tree where
  /-- A file, perhaps with the time of its last change. -/
  | file (content : Bytes) (modified : Option Int)
  /-- A folder. -/
  | folder (children : List (Text × Tree))

instance : Inhabited Tree := ⟨.folder []⟩

namespace Disk

mutual

/-- Puts a tree at a path. -/
def plant (d : Disk) (p : Path) : Tree → Disk
  | .file content modified =>
    { d.put p (.file ⟨d.nextId, content, modified.getD d.clock⟩) with nextId := d.nextId + 1 }
  | .folder children => plantAll (if p = [] then d else d.put p .folder) p children

/-- Puts trees into a folder. -/
def plantAll (d : Disk) (p : Path) : List (Text × Tree) → Disk
  | [] => d
  | (name, t) :: rest => plantAll (plant d (p ++ [name]) t) p rest

end

/-- The tree at a path, as deep as `depth` folders. -/
def treeWithin (d : Disk) (p : Path) : Nat → Tree
  | 0 => .folder []
  | depth + 1 =>
    match d.item? p with
    | some (.file f) => .file f.content (some f.modified)
    | _ => .folder ((d.children p).map fun c => (c.1, treeWithin d (p ++ [c.1]) depth))

/-- The tree at a path. -/
def tree (d : Disk) (p : Path) : Tree :=
  d.treeWithin p ((d.items.map (fun e => e.1.length)).foldl max 0 + 1)

end Disk

end Mailroom
