import Mailroom.Disk

/-!
# The maildir

A maildir is a folder of mail folders.  A mail folder holds three folders: `new` for messages that
no reader has seen, `cur` for the others, and `tmp` for messages that are being written.  A
message is one file; what follows the first colon of its name are flags.

* `Entry.moveTo` gives a message another folder by one renaming.
* `Entry.replace` opens a `Replacement`, which is written beside the message and put in its place
  by `Replacement.commit`, again by one renaming.
* `Maildir.removeFolder` removes empty folders only.
-/

namespace Mailroom

/-! ## Handles -/

/-- Where in its folder a message is. -/
inductive ReadState where
  /-- Among the messages that no reader has seen. -/
  | new
  /-- Among the messages that some reader has seen. -/
  | cur
  deriving DecidableEq, Repr

/-- The name of the place. -/
def ReadState.name : ReadState → Text
  | .new => "new"
  | .cur => "cur"

/-- Where messages are written. -/
def temporaryName : Text := "tmp"

/-- The order in which the files of a folder are met: any arrangement of their names. -/
structure Listing where
  /-- The names of a folder, arranged. -/
  arrange : Path → List Text → List Text
  /-- No name is lost, added or doubled. -/
  perm : ∀ p l, (arrange p l).Perm l

/-- Files are met in increasing order of their names. -/
def Listing.byName : Listing := ⟨fun _ l => l, fun _ _ => .refl _⟩

/-- A maildir. -/
structure Maildir where
  /-- Where it is. -/
  root : Path
  /-- In which order messages are met. -/
  listing : Listing := .byName

/-- A mail folder; it need not exist. -/
structure Folder where
  /-- Where the maildir is. -/
  root : Path
  /-- The name of the folder. -/
  name : Text
  deriving DecidableEq, Repr

namespace Folder

/-- Where the folder is. -/
def path (f : Folder) : Path := Path.join f.root f.name

/-- Where the messages of a state are. -/
def statePath (f : Folder) (s : ReadState) : Path := f.path ++ [s.name]

/-- Whether the folder has both places for messages. -/
def isThere (f : Folder) (d : Disk) : Bool :=
  d.isFolder (f.statePath .new) && d.isFolder (f.statePath .cur)

end Folder

/-- The folder of a name. -/
def Maildir.folder (m : Maildir) (name : Text) : Folder := ⟨m.root, name⟩

/-- What is known of a file without reading it. -/
structure Stat where
  /-- The number of bytes. -/
  size : Nat
  /-- When it was last changed. -/
  modified : Int
  deriving DecidableEq, Repr

/-- A message in a folder. -/
structure Entry where
  /-- The folder. -/
  folder : Folder
  /-- The part of the file's name before the first colon. -/
  key : Text
  /-- The part after the first colon. -/
  flags : Option Text
  /-- Where in the folder it is. -/
  state : ReadState
  /-- What is known of the file, once it was asked for. -/
  known : Option Stat
  deriving DecidableEq, Repr

namespace Entry

/-- The message of a file's name. -/
def ofName (folder : Folder) (state : ReadState) (name : Text) : Entry :=
  match Text.cut ':' name with
  | some (key, flags) => ⟨folder, key, some flags, state, none⟩
  | none => ⟨folder, name, none, state, none⟩

/-- The name of the file. -/
def name (e : Entry) : Text :=
  match e.flags with
  | some flags => e.key ++ ':' :: flags
  | none => e.key

/-- Where the message would be in a folder. -/
def pathIn (e : Entry) (f : Folder) : Path := Path.join (f.statePath e.state) e.name

/-- Where the message is. -/
def path (e : Entry) : Path := e.pathIn e.folder

end Entry

/-! ## Looking -/

/-- The result of a disk operation. -/
def ofDisk {α : Type} : Except Fault α → Except Error α
  | .ok a => .ok a
  | .error f => .error (.file f)

namespace Maildir

/-- The folders of a maildir in increasing order of their names: all that have both places for
messages and whose name begins with no dot. -/
def folders (m : Maildir) (d : Disk) : Except Error (List Folder) := do
  let names ← ofDisk (d.list m.root)
  return ((names.map Prod.fst).filter (fun n => n.head? != some '.')).map m.folder |>.filter
    (fun f => f.isThere d)

end Maildir

namespace Folder

/-- The messages of one state: all files whose name begins with no dot. -/
def messagesOf (f : Folder) (listing : Listing) (d : Disk) (s : ReadState) :
    Except Error (List Entry) := do
  let found ← ofDisk (d.list (f.statePath s))
  let names := (found.filter (fun c => match c.2 with | .file _ => true | .folder => false)).map
    Prod.fst
  return ((listing.arrange (f.statePath s) names).filter (fun n => n.head? != some '.')).map
    (Entry.ofName f s)

/-- The messages of a folder, the unseen ones first. -/
def messages (f : Folder) (listing : Listing) (d : Disk) : Except Error (List Entry) := do
  let unseen ← f.messagesOf listing d .new
  let seen ← f.messagesOf listing d .cur
  return unseen ++ seen

/-- The message of a file's name. -/
def find (f : Folder) (d : Disk) (name : Text) : Except Error Entry :=
  match [ReadState.new, .cur].find? (fun s => d.isFile (Path.join (f.statePath s) name)) with
  | some s => .ok (.ofName f s name)
  | none => .error (.missing ("no message " ++ name ++ " in " ++ f.name))

end Folder

namespace Entry

/-- What is known of the file; the disk is asked only once. -/
def stat (e : Entry) (d : Disk) : Except Error (Stat × Entry) :=
  match e.known with
  | some s => .ok (s, e)
  | none => do
    match ← ofDisk (d.stat e.path) with
    | .file f =>
      let s : Stat := ⟨f.content.length, f.modified⟩
      return (s, { e with known := some s })
    | .folder =>
      let s : Stat := ⟨0, d.clock⟩
      return (s, { e with known := some s })

/-- The whole message. -/
def read (e : Entry) (d : Disk) : Except Error Bytes := ofDisk (d.read e.path)

/-! ## Changing -/

/-- Moves a message to another folder, where it keeps its name and its state.  The folder must
have a place for it; a message that is there already stays. -/
def moveTo (e : Entry) (dest : Folder) (d : Disk) : Except Error (Disk × Entry) :=
  if dest = e.folder then .ok (d, e)
  else if d.isFolder (dest.statePath e.state) then do
    let d ← ofDisk (d.rename e.path (e.pathIn dest))
    return (d, { e with folder := dest, known := none })
  else .error (.config ("destination folder " ++ dest.name ++ " does not exist"))

/-- Removes a message. -/
def remove (e : Entry) (d : Disk) : Except Error Disk := ofDisk (d.removeFile e.path)

end Entry

/-- A message that is being written anew. -/
structure Replacement where
  /-- The file that is written. -/
  id : FileId
  /-- How many bytes were written. -/
  written : Nat
  /-- Where the file is. -/
  temporary : Path
  /-- The place it is to take. -/
  target : Path
  deriving DecidableEq, Repr

/-- Begins to write a message anew, beside it. -/
def Entry.replace (e : Entry) (d : Disk) : Except Error (Disk × Entry × Replacement) := do
  let temporary := Path.join (e.folder.path ++ [temporaryName]) e.name
  let (id, d) ← ofDisk (d.create temporary)
  return (d, { e with known := none }, ⟨id, 0, temporary, e.path⟩)

namespace Replacement

/-- Appends bytes. -/
def write (r : Replacement) (bytes : Bytes) (d : Disk) : Disk × Replacement :=
  (d.write r.id r.written bytes, { r with written := r.written + bytes.length })

/-- Gives the writing up: what was written goes away. -/
def discard (r : Replacement) (d : Disk) : Disk := (d.removeFile r.temporary).toOption.getD d

/-- Puts what was written in the place of the message.  If that fails it goes away, and the
message stays as it was. -/
def commit (r : Replacement) (d : Disk) : Except Error Unit × Disk :=
  match d.rename r.temporary r.target with
  | .ok d => (.ok (), d)
  | .error f => (.error (.file f), r.discard d)

end Replacement

namespace Maildir

/-- Removes folders one after the other, as far as they exist, until one cannot be removed. -/
def removeEach : List Path → Disk → Except Error Unit × Disk
  | [], d => (.ok (), d)
  | p :: ps, d =>
    if d.exists? p then
      match d.removeFolder p with
      | .ok d => removeEach ps d
      | .error f => (.error (.file f), d)
    else removeEach ps d

/-- Removes a folder without messages: its three places, as far as they exist, and the folder
itself.  What cannot be removed stays, with all that would have been removed after it. -/
def removeFolder (m : Maildir) (name : Text) (d : Disk) : Except Error Unit × Disk :=
  let path := Path.join m.root name
  match removeEach ([ReadState.new.name, ReadState.cur.name, temporaryName].map
      (fun n => path ++ [n])) d with
  | (.ok (), d) =>
    match d.removeFolder path with
    | .ok d => (.ok (), d)
    | .error f => (.error (.file f), d)
  | failed => failed

end Maildir

end Mailroom
