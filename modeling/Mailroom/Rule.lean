import Mailroom.Date
import Mailroom.Error
import Mailroom.Label
import Mailroom.Mailbox
import Mailroom.Text.Blank
import Mailroom.Text.Quoted

/-!
# Rules

A rule says which messages it is for and what is to be done with them.  A `RawRule` is a rule as
it is written; `RawRule.compile` brings it into the form that is worked with.

* Labels are in label form, with slashes between their parts; folders are in folder form, with
  dots between theirs.
* A criterion with an empty operand is none.  A rule without action is dropped.
* `Rule.okayDateAt` is the time that a message has to be older than.
-/

namespace Mailroom

/-! ## Criteria -/

/-- The tests of a message that compare it with a text. -/
inductive TextTest where
  /-- A mailbox among the authors. -/
  | author
  /-- The domain of an author. -/
  | authorDomain
  /-- A mailbox among the recipients. -/
  | recipient
  /-- The domain of a recipient. -/
  | recipientDomain
  /-- The mailbox that sent the message for its author. -/
  | sender
  /-- The mailbox that the message was delivered to. -/
  | deliveredTo
  /-- The subject. -/
  | subject
  /-- The subject, in any case. -/
  | subjectAnyCase
  /-- A part of the subject. -/
  | subjectPart
  /-- A part of the subject, in any case. -/
  | subjectPartAnyCase
  /-- A part of the whole message. -/
  | part
  /-- A part of the whole message, in any case. -/
  | partAnyCase
  deriving DecidableEq, Repr

namespace TextTest

/-- All tests, in the order in which they are made. -/
def all : List TextTest :=
  [author, authorDomain, recipient, recipientDomain, sender, deliveredTo, subject, subjectAnyCase,
   subjectPart, subjectPartAnyCase, part, partAnyCase]

/-- The name of a test in rules. -/
def key : TextTest → Text
  | author => "from"
  | authorDomain => "from_domain"
  | recipient => "to"
  | recipientDomain => "to_domain"
  | sender => "sender"
  | deliveredTo => "delivered_to"
  | subject => "subject"
  | subjectAnyCase => "isubject"
  | subjectPart => "subject_contains"
  | subjectPartAnyCase => "subject_icontains"
  | part => "contains"
  | partAnyCase => "icontains"

end TextTest

/-- Which messages a rule is for. -/
structure Criteria where
  /-- The folder that the message has to be in. -/
  folder : Option Text
  /-- How many days old the message has to be. -/
  days : Option Int
  /-- The texts that the message is compared with. -/
  operand : TextTest → Option Text

/-- Criteria that ask for nothing. -/
def Criteria.none : Criteria := ⟨.none, .none, fun _ => .none⟩

instance : Inhabited Criteria := ⟨.none⟩

/-! ## Canonical names -/

/-- Brings a label into label form, with slashes for dots; a blank text is no label. -/
def canonicalLabel? (t : Text) : Option Text :=
  match Text.trim t with
  | [] => none
  | name =>
    match resolveLabel name with
    | '\\' :: rest => some ('\\' :: rest)
    | label => some (Text.replace '.' '/' label)

/-- Brings the name of a folder into folder form, with dots for slashes. -/
def canonicalFolder (t : Text) : Text := Text.replace '/' '.' (resolveFolder (Text.trim t))

/-- Keeps a text that is not empty. -/
def nonEmpty (t : Option Text) : Option Text := t.filter (fun t => !t.isEmpty)

/-- Criteria without empty operands, and with the folder in folder form. -/
def Criteria.normalized (c : Criteria) : Criteria where
  folder := (nonEmpty c.folder).map canonicalFolder
  days := c.days.filter (· != 0)
  operand t := nonEmpty (c.operand t)

/-! ## Rules -/

/-- A rule as it is written. -/
structure RawRule where
  /-- Which messages it is for. -/
  criteria : Criteria
  /-- The labels to remove. -/
  clear : List Text
  /-- The labels to add. -/
  label : List Text
  /-- The folder to move to. -/
  moveTo : Option Text
  /-- The address lists to forward to. -/
  forward : List Text

/-- A rule that can be worked with. -/
structure Rule where
  /-- Which messages it is for. -/
  criteria : Criteria
  /-- The time that a message has to be older than. -/
  okayDate : Option Time
  /-- The labels to remove. -/
  clear : List Text
  /-- The labels to add. -/
  label : List Text
  /-- The folder to move to. -/
  moveTo : Option Text
  /-- The mailboxes to forward to. -/
  forward : List Mailbox
  /-- Its number among all rules. -/
  order : Nat

namespace Rule

/-- The days that a message has to be old before it is thrown away. -/
def defaultTrashDays : Int := 90

/-- Whether the rule asks for the age of a message: if it gives a number of days, and always
before a message is thrown away. -/
def needsOkayDate (r : Rule) : Bool :=
  (r.criteria.days.filter (· != 0)).isSome || r.label.contains Label.trash.labelForm ||
    r.moveTo == some Label.trash.folderForm

/-- The time that a message has to be older than at a given time; the least one, if it cannot be
told. -/
def okayDateAt (r : Rule) (now : Time) : Time :=
  let days := (r.criteria.days.filter (· != 0)).getD defaultTrashDays
  ((Date.spanOfDays? days).bind (Date.before? now)).getD Date.minTime

/-- Whether the rule does anything. -/
def hasAction (r : Rule) : Bool :=
  !r.clear.isEmpty || !r.label.isEmpty || r.moveTo.isSome || !r.forward.isEmpty

end Rule

/-- Whether something stands on both sides of the first `@` of an address. -/
def Mailbox.isComplete (m : Mailbox) : Bool :=
  match Text.cut '@' m.email with
  | some (name, domain) => !name.isEmpty && !domain.isEmpty
  | none => false

/-- Reads one list of addresses to forward to. -/
def readDestinations (t : Text) : Except Error (List Mailbox) :=
  let complaint : Text := "Invalid forward address " ++ Text.quoted t
  match Mailbox.parseList t with
  | .error f => .error (.config (complaint ++ ": " ++ (Error.parse f.message).message))
  | .ok ms =>
    if ms.isEmpty || !ms.all Mailbox.isComplete then .error (.config complaint) else .ok ms

/-- Reads lists of addresses to forward to; blank ones do not count. -/
def readAllDestinations : List Text → Except Error (List Mailbox)
  | [] => .ok []
  | t :: ts =>
    let t := Text.trim t
    if t.isEmpty then readAllDestinations ts
    else do
      let ms ← readDestinations t
      let rest ← readAllDestinations ts
      return ms ++ rest

/-- The rule that a written one stands for; `none` if it has no action. -/
def RawRule.compile (r : RawRule) (order : Nat) : Except Error (Option Rule) := do
  let forward ← readAllDestinations r.forward
  let rule : Rule := {
    criteria := r.criteria.normalized
    okayDate := none
    clear := r.clear.filterMap canonicalLabel?
    label := r.label.filterMap canonicalLabel?
    moveTo := nonEmpty (r.moveTo.map canonicalFolder)
    forward := forward
    order := order }
  return if rule.hasAction then some rule else none

end Mailroom
