import Mailroom.Forwarder
import Mailroom.Rule

/-!
# Carrying out a rule

A clerk does what a rule says, in a fixed order: add labels, remove labels, pass the message on,
save it, move it.  Every action is counted when it is done.

* A letter that the post refuses stops nothing, and is not counted.
* On a trial the keywords change only in memory: nothing is saved, moved or sent.
-/

namespace Mailroom

/-- Who carries out rules. -/
structure Clerk where
  /-- Where the folders are. -/
  maildir : Maildir
  /-- Who passes messages on, if that is allowed. -/
  forwarder : Option Forwarder
  /-- Whether this is a trial only. -/
  dryRun : Bool
  /-- The present time. -/
  now : Time

namespace Clerk

/-- Adds labels. -/
def addLabels (labels : List Text) : Handling Unit := do
  if labels.isEmpty then return
  discard (Reading.toEditing (Message.addKeywords labels) : Handling Bool)
  Handling.record ("Labeled " ++ Text.join ", " labels)

/-- Removes labels. -/
def removeLabels (labels : List Text) : Handling Unit := do
  if labels.isEmpty then return
  discard (Reading.toEditing (Message.removeKeywords labels) : Handling Bool)
  Handling.record ("Cleared " ++ Text.join ", " labels)

/-- Passes a message on.  On a trial it is only looked whether there is anybody left to pass it
on to. -/
def passOn (k : Clerk) (destinations : List Mailbox) : Handling Unit := do
  if destinations.isEmpty then return
  let addresses := Mailbox.renderList destinations
  match k.forwarder with
  | none => Handling.record ("NOT Forwarded " ++ addresses)
  | some f =>
    if k.dryRun then
      let pending ← Reading.toEditing (pendingRecipients destinations)
      if !pending.isEmpty then Handling.record ("Forwarded " ++ addresses)
    else
      let outcome ← tryCatch (some <$> f.forward destinations k.now) (fun _ => return none)
      match outcome with
      | some (.sent _) => Handling.record ("Forwarded " ++ addresses)
      | _ => return

/-- Saves a message, unless this is a trial. -/
def save (k : Clerk) : Handling Unit := do
  if !k.dryRun then discard (Message.save : Handling Bool)

/-- Moves a message. -/
def move (k : Clerk) (folder : Option Text) : Handling Unit := do
  match folder with
  | none => return
  | some name =>
    if !k.dryRun then Message.moveTo (k.maildir.folder name)
    Handling.record ("Moved " ++ name)

/-- Does what a rule says. -/
def apply (k : Clerk) (r : Rule) : Handling Unit := do
  addLabels r.label
  removeLabels r.clear
  k.passOn r.forward
  k.save
  k.move r.moveTo

end Clerk

end Mailroom
