import Mailroom.Date
import Mailroom.Header.Revision
import Mailroom.Keywords
import Mailroom.Mailbox
import Mailroom.Maildir
import Mailroom.Text.Quoted

/-!
# A message at hand

A message that was taken up remembers what it has read of its file, and the fields that are to
get new values.  Nothing is written before `Message.save`.

* `Reading` is what looks at a message: it may change what the message remembers, and cannot
  change the disk.
* `Editing` is what may change the disk as well.
-/

namespace Mailroom

/-- A message that was taken up. -/
structure Message where
  /-- The file. -/
  entry : Entry
  /-- Its content, once it was read. -/
  content : Option Bytes
  /-- Its header block, once it was read. -/
  header : Option Header
  /-- Its keywords, once they were asked for, and with all changes since. -/
  keywordSet : Option Keywords
  /-- The fields that are to get new values; an empty value removes the field. -/
  edits : List Field
  deriving DecidableEq

/-- A message and the disk that it is on. -/
structure Desk where
  /-- The disk. -/
  disk : Disk
  /-- The message. -/
  message : Message

/-- A look at a message. -/
abbrev Reading (α : Type) := ReaderT Disk (ExceptT Error (StateM Message)) α

/-- Work on a message. -/
abbrev Editing (α : Type) := ExceptT Error (StateM Desk) α

/-- A result that was there before any look at the message. -/
def Reading.ofExcept {α : Type} (r : Except Error α) : Reading α := fun _ => ExceptT.mk (pure r)

/-- A look at a message is work that leaves the disk alone. -/
def Reading.toEditing {α : Type} (r : Reading α) : Editing α := fun desk =>
  let (result, message) := r desk.disk desk.message
  (result, { desk with message := message })

instance : MonadLift Reading Editing := ⟨Reading.toEditing⟩

namespace Message

/-- Takes up a message. -/
def ofEntry (entry : Entry) : Message := ⟨entry, none, none, none, []⟩

/-- The name of the folder that the message is in. -/
def folder (m : Message) : Text := m.entry.folder.name

/-- Whether a field is to get a new value. -/
def isDirty (m : Message) : Bool := !m.edits.isEmpty

/-! ## Fields -/

/-- The whole message as it is on the disk. -/
def raw : Reading Bytes := do
  let m ← get
  match m.content with
  | some bytes => return bytes
  | none =>
    let bytes ← Reading.ofExcept (m.entry.read (← read))
    modify fun m => { m with content := some bytes }
    return bytes

/-- The header block as it is on the disk. -/
def parsed : Reading Header := do
  match (← get).header with
  | some h => return h
  | none =>
    match Header.read (← raw) with
    | .ok h =>
      modify fun m => { m with header := some h }
      return h
    | .error f => throw (.parse f.message)

/-- The new value that a field is to get. -/
def edit? (m : Message) (name : Text) : Option Field :=
  m.edits.find? (fun e => Text.sameName e.name name)

/-- The values of all fields of a name, new values included. -/
def fieldValues (name : Text) : Reading (List Text) := do
  match (← get).edit? name with
  | some e => return if e.value.isEmpty then [] else [e.value]
  | none => return (← parsed).values name

/-- The value of the first field of a name. -/
def field? (name : Text) : Reading (Option Text) := do
  return (← fieldValues name).head?

/-- Gives a field a new value, to be written when the message is saved. -/
def setField (m : Message) (name value : Text) : Message :=
  { m with edits := m.edits.filter (fun e => !Text.sameName e.name name) ++ [⟨name, value⟩] }

/-- The date of the message. -/
def date : Reading Time := do
  match ← field? "Date" with
  | none => throw (.parse ((← get).entry.key ++ " has no Date header"))
  | some value =>
    match Date.parse value with
    | .error f => throw (.parse ("bad Date " ++ Text.quoted value ++ ": " ++ f.message))
    | .ok t =>
      if Date.inRange t then return t
      else throw (.parse ("Date out of range: " ++ value))

/-- The subject, empty if there is none. -/
def subject : Reading Text := do
  return (← field? "Subject").getD []

/-- The mailboxes of a list of address fields. -/
def mailboxesOf : List Text → Except Mailbox.ListFault (List Mailbox)
  | [] => .ok []
  | value :: values => do
    let first ← Mailbox.parseList value
    let rest ← mailboxesOf values
    return first ++ rest

/-- The mailboxes in all address fields of a name. -/
def mailboxes (name : Text) : Reading (List Mailbox) := do
  match mailboxesOf (← fieldValues name) with
  | .ok ms => return ms
  | .error f => throw (.parse f.message)

/-! ## Keywords -/

/-- The text of all keyword fields. -/
def keywordText : Reading Text := do
  return Text.join ", " (← fieldValues Keywords.fieldName)

/-- The keywords. -/
def keywords : Reading Keywords := do
  match (← get).keywordSet with
  | some k => return k
  | none =>
    let k := Keywords.parse (← keywordText)
    modify fun m => { m with keywordSet := some k }
    return k

/-- Whether all of some keywords are present. -/
def hasAll (names : List Text) : Reading Bool := do
  let k ← keywords
  return names.all k.contains

/-- Whether none of some keywords is present. -/
def hasNone (names : List Text) : Reading Bool := do
  let k ← keywords
  return names.all (fun n => !k.contains n)

/-- Whether a keyword field holds a token that does not conform. -/
def hasNonconformingKeywords : Reading Bool := do
  return hasNonconforming (← keywordText)

/-- Gives the keyword field the value that the keywords have. -/
def stageKeywords (m : Message) : Message :=
  m.setField Keywords.fieldName ((m.keywordSet.map Keywords.render).getD [])

/-- Changes the keywords, and the field if they did change. -/
def changeKeywords (change : Keywords → Keywords × Bool) : Reading Bool := do
  let (k, changed) := change (← keywords)
  modify fun m => { m with keywordSet := some k }
  if changed then modify stageKeywords
  return changed

/-- Adds keywords and tells whether one of them was new. -/
def addKeywords (names : List Text) : Reading Bool := changeKeywords (·.insertAll names)

/-- Removes keywords and tells whether one of them was present. -/
def removeKeywords (names : List Text) : Reading Bool := changeKeywords (·.eraseAll names)

/-- Brings the keyword field into the form in which it is always written, and tells whether it
was in another one. -/
def tidyKeywords : Reading Bool := do
  let stored ← keywordText
  let canonical := (← keywords).render
  if Text.trim stored == canonical then
    if (← fieldValues Keywords.fieldName).length ≤ 1 then return false
  modify stageKeywords
  return true

/-! ## Writing -/

/-- Writes a message anew: its file gets the given content, or stays as it was. -/
def putContent (bytes : Bytes) : Editing Unit := fun desk =>
  match desk.message.entry.replace desk.disk with
  | .error e => (.error e, desk)
  | .ok (disk, entry, replacement) =>
    let (disk, replacement) := replacement.write bytes disk
    let (result, disk) := replacement.commit disk
    (result, ⟨disk, { desk.message with entry := entry }⟩)

/-- Writes the new values of fields to the disk, if there are any, and tells whether there
were. -/
def save : Editing Bool := do
  let edits := (← getThe Desk).message.edits
  if edits.isEmpty then return false
  let bytes ← raw
  let header ← parsed
  let revised := revise bytes header.bodyOffset edits
  putContent revised
  modifyThe Desk fun desk => { desk with
    message := { desk.message with edits := [], header := none, content := some revised } }
  return true

/-- Moves the message to another folder. -/
def moveTo (dest : Folder) : Editing Unit := fun desk =>
  match desk.message.entry.moveTo dest desk.disk with
  | .error e => (.error e, desk)
  | .ok (disk, entry) => (.ok (), ⟨disk, { desk.message with entry := entry }⟩)

end Message

end Mailroom
