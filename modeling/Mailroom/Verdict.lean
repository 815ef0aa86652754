import Mailroom.Message
import Mailroom.Rule
import Mailroom.Text.LowerCase

/-!
# Whether a rule is for a message

`Rule.verdict` says what becomes of a rule for one message.

* A rule is skipped if it would change nothing, and always if the message is starred: `Skip`
  gives the reasons, in the order in which they are looked for.
* Otherwise its tests are made, in the order of `Test.all`, up to the first one that fails.  What
  cannot be read fails the test that asks for it.
* A rule whose only test is that of the folder is for no message at all.
-/

namespace Mailroom

/-! ## Reading without failing -/

/-- A look at a message that comes to an answer whatever the message is. -/
abbrev Looking (α : Type) := ReaderT Disk (StateM Message) α

/-- Whatever comes of a look at a message. -/
def Reading.attempt {α : Type} (r : Reading α) : Looking (Except Error α) :=
  fun disk => (r disk).run

/-- An answer is given without a failure. -/
def Looking.toReading {α : Type} (l : Looking α) : Reading α := fun disk => ExceptT.lift (l disk)

instance : MonadLift Looking Reading := ⟨Looking.toReading⟩

/-! ## Tests -/

/-- What a rule can ask of a message. -/
inductive Test where
  /-- To be in a folder. -/
  | folder
  /-- To be older than a time. -/
  | age
  /-- To agree with a text. -/
  | text (t : TextTest)
  deriving DecidableEq, Repr

namespace Test

/-- All tests, in the order in which they are made. -/
def all : List Test := folder :: age :: TextTest.all.map text

/-- The name of a test in rules. -/
def key : Test → Text
  | folder => "folder"
  | age => "days"
  | text t => t.key

end Test

/-- Whether the address of some mailbox is the given one, in any case. -/
def anyAddress (ms : List Mailbox) (wanted : Text) : Bool :=
  ms.any (fun m => Text.lower m.email == Text.lower (Text.trim wanted))

/-- Whether the domain of some mailbox is the given one, in any case. -/
def anyDomain (ms : List Mailbox) (wanted : Text) : Bool :=
  ms.any (fun m => Text.lower m.domain == Text.lower (Text.trim wanted))

/-- Whether a message agrees with a text. -/
def TextTest.holds (t : TextTest) (operand : Text) : Reading Bool := do
  match t with
  | author => return anyAddress (← Message.mailboxes "From") operand
  | authorDomain => return anyDomain (← Message.mailboxes "From") operand
  | recipient => return anyAddress (← Message.mailboxes "To") operand
  | recipientDomain => return anyDomain (← Message.mailboxes "To") operand
  | sender => return anyAddress (← Message.mailboxes "Sender") operand
  | deliveredTo => return anyAddress (← Message.mailboxes "Delivered-To") operand
  | subject => return (← Message.subject) == operand
  | subjectAnyCase => return Text.lower (← Message.subject) == Text.lower operand
  | subjectPart => return occurs operand (← Message.subject)
  | subjectPartAnyCase => return occurs (Text.lower operand) (Text.lower (← Message.subject))
  | part => return occurs (Utf8.encode operand) (← Message.raw)
  | partAnyCase =>
    return occurs (Text.lower operand) (Text.lower (Utf8.decodeLossy (← Message.raw)))

namespace Rule

/-- Whether a rule makes a test. -/
def asks (r : Rule) : Test → Bool
  | .folder => r.criteria.folder.isSome
  | .age => r.okayDate.isSome
  | .text t => (r.criteria.operand t).isSome

/-- The tests that a rule makes, in order. -/
def tests (r : Rule) : List Test := Test.all.filter r.asks

/-- Whether a message passes a test of a rule; a test that the rule does not make is passed. -/
def holds (r : Rule) : Test → Reading Bool
  | .folder => do return r.criteria.folder.all (· == (← get).folder)
  | .age => do
    match r.okayDate with
    | some okay => return decide ((← Message.date) < okay)
    | none => return true
  | .text t =>
    match r.criteria.operand t with
    | some operand => t.holds operand
    | none => return true

end Rule

/-! ## Reasons to skip a rule -/

/-- Why a rule is not even tested. -/
inductive Skip where
  /-- The message has all labels that the rule adds. -/
  | alreadyLabeled
  /-- The message has no label that the rule removes. -/
  | alreadyCleared
  /-- The message is where the rule moves it. -/
  | alreadyInFolder
  /-- The message is starred. -/
  | starred
  deriving DecidableEq, Repr

namespace Skip

/-- All reasons, in the order in which they are looked for. -/
def all : List Skip := [alreadyLabeled, alreadyCleared, alreadyInFolder, starred]

/-- Whether there is a reason to skip a rule. -/
def holds (r : Rule) : Skip → Reading Bool
  | alreadyLabeled => if r.label.isEmpty then return false else Message.hasAll r.label
  | alreadyCleared => if r.clear.isEmpty then return false else Message.hasNone r.clear
  | alreadyInFolder => do return r.moveTo == some (← get).folder
  | starred => Message.hasAll [Label.starred.labelForm]

/-- The first reason of a list that there is. -/
def first? (r : Rule) : List Skip → Reading (Option Skip)
  | [] => return none
  | s :: rest => do if ← s.holds r then return some s else first? r rest

end Skip

/-! ## The verdict -/

/-- What becomes of a rule for a message. -/
inductive Verdict where
  /-- The rule is not tested. -/
  | skip (reason : Skip)
  /-- The rule makes no test but that of the folder. -/
  | noTests
  /-- The message fails a test. -/
  | fail (test : Test)
  /-- The message passes all tests. -/
  | pass
  deriving DecidableEq, Repr

/-- Whether the rule is for the message. -/
def Verdict.applies (v : Verdict) : Bool := v == .pass

namespace Rule

/-- The first test of a list that a message does not pass. -/
def firstFailure (r : Rule) : List Test → Looking (Option Test)
  | [] => return none
  | t :: rest => do
    match ← (r.holds t).attempt with
    | .ok true => firstFailure r rest
    | _ => return some t

/-- What becomes of a rule for a message.  If the keywords cannot be read, the message counts as
one of another folder. -/
def verdict (r : Rule) : Looking Verdict := do
  match ← (Skip.first? r Skip.all).attempt with
  | .error _ => return .fail .folder
  | .ok (some reason) => return .skip reason
  | .ok none =>
    match ← r.firstFailure r.tests with
    | some t => return .fail t
    | none => return if r.tests.any (· != .folder) then .pass else .noTests

end Rule

end Mailroom
