import Mailroom.Letter.Copy
import Mailroom.Office
import Mailroom.Text.LowerCase

/-!
# Passing messages on

A message remembers, in a field of its own, the addresses that it was passed on to, and it is not
passed on to them again.

* `pendingRecipients` are the addresses of a list that it was not passed on to yet.
* `Forwarder.forward` sends one letter to all of them, and writes them into the field only if the
  post took the letter.
-/

namespace Mailroom

/-- The field that lists the addresses that a message was passed on to. -/
def forwardedField : Text := "X-Zostay-Forwarded"

/-- The addresses that the message at hand was passed on to. -/
def forwardedRecipients : Reading TextSet := do
  let values ← Message.fieldValues forwardedField
  return .ofList ((values.flatMap (Text.words isTokenBreak)).map Text.lower)

/-- The addresses of a list that a message was not passed on to yet, in small letters and in
increasing order. -/
def pendingRecipients (destinations : List Mailbox) : Reading (List Text) := do
  let done ← forwardedRecipients
  let wanted := destinations.map (fun m => Text.lower m.email)
  return (TextSet.ofList (wanted.filter (fun a => !done.contains a))).toList

/-- What came of passing a message on. -/
inductive Forwarded where
  /-- A letter was sent to some addresses. -/
  | sent (recipients : List Text)
  /-- The message had been passed on to all of them. -/
  | alreadyDone
  deriving DecidableEq, Repr

/-- Who passes messages on. -/
structure Forwarder where
  /-- Whose name stands on the letters. -/
  sender : Mailbox
  /-- What delivers the letters. -/
  post : Post
  /-- Suggestions for the boundary of a letter. -/
  boundaries : List Text

namespace Forwarder

/-- The mailbox of a sender, which has to be a single one. -/
def senderOf (address : Text) : Except Error Mailbox :=
  match Mailbox.parseList address with
  | .ok [m] => .ok m
  | _ => .error (.config ("Invalid sender address " ++ Text.quoted address))

/-- Passes a message on to all addresses of a list that it was not passed on to yet. -/
def forward (f : Forwarder) (destinations : List Mailbox) (now : Time) : Handling Forwarded := do
  let recipients ← Reading.toEditing (pendingRecipients destinations)
  if recipients.isEmpty then return .alreadyDone
  let copy ← Reading.toEditing (Copy.ofMessage f.sender destinations now f.boundaries)
  Handling.submit f.post ⟨f.sender.email, recipients, Utf8.encode copy.render⟩
  let done ← Reading.toEditing forwardedRecipients
  let all := (done.insertAll recipients).toList
  modifyThe Case fun c =>
    { c with message := c.message.setField forwardedField (Text.join ", " all) }
  return .sent recipients

end Forwarder

end Mailroom
