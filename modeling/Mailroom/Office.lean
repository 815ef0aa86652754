import Mailroom.Message
import Mailroom.Summary

/-!
# The office

The office is what the mailroom's work changes: the disk, the record of letters that were given
to the post, and the summary of what was done.

* A `Post` accepts or refuses a letter; what it does may depend on all it was given before.
* `Handling` is work on one message in the office.  Whatever comes of it, what was done until
  then stays done.
-/

namespace Mailroom

/-! ## The post -/

/-- What is given to the post. -/
structure Letter where
  /-- The address of the sender. -/
  sender : Text
  /-- The addresses that it goes to. -/
  recipients : List Text
  /-- The content. -/
  body : Bytes
  deriving DecidableEq, Repr

/-- A letter that was given to the post. -/
structure Submission where
  /-- The letter. -/
  letter : Letter
  /-- Where the message is that it passes on. -/
  source : Path
  /-- Whether the post took it. -/
  accepted : Bool
  deriving DecidableEq, Repr

/-- What delivers letters: whether it takes a letter, after all it was given before. -/
structure Post where
  /-- The answer to a letter. -/
  answer : List Submission → Letter → Except Error Unit

/-! ## The office -/

/-- What the mailroom's work changes. -/
structure Office where
  /-- The disk. -/
  disk : Disk
  /-- The letters given to the post, the earliest first. -/
  submissions : List Submission
  /-- What was done. -/
  summary : Summary

namespace Office

/-- The office before anything is done. -/
def ofDisk (d : Disk) : Office := ⟨d, [], .empty⟩

/-- The letters that the post took. -/
def delivered (o : Office) : List Letter :=
  (o.submissions.filter Submission.accepted).map Submission.letter

end Office

/-- A message in the office. -/
structure Case where
  /-- The office. -/
  office : Office
  /-- The message. -/
  message : Message

/-- Work in the office. -/
abbrev Work (α : Type) := ExceptT Error (StateM Office) α

/-- Work on a message in the office. -/
abbrev Handling (α : Type) := ExceptT Error (StateM Case) α

/-- Work on a message that leaves the rest of the office alone. -/
def Editing.toHandling {α : Type} (e : Editing α) : Handling α := fun c =>
  let (result, desk) := e ⟨c.office.disk, c.message⟩
  (result, ⟨{ c.office with disk := desk.disk }, desk.message⟩)

instance : MonadLift Editing Handling := ⟨Editing.toHandling⟩

namespace Handling

/-- Takes a message up and works on it. -/
def onMessage {α : Type} (h : Handling α) (m : Message) : Work α := fun office =>
  let (result, c) := h ⟨office, m⟩
  (result, c.office)

/-- Counts an action. -/
def record (action : Text) : Handling Unit :=
  modifyThe Case fun c =>
    { c with office := { c.office with summary := c.office.summary.record action } }

/-- Gives a letter to the post. -/
def submit (post : Post) (letter : Letter) : Handling Unit := fun c =>
  let result := post.answer c.office.submissions letter
  let submissions := c.office.submissions ++
    [⟨letter, c.message.entry.path, result.toBool⟩]
  (result, { c with office := { c.office with submissions := submissions } })

end Handling

end Mailroom
