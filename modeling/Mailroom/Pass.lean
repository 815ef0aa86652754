import Mailroom.Clerk
import Mailroom.Rulebook
import Mailroom.Verdict

/-!
# The pass through the folders

A pass takes up the messages of all folders, one after the other, and has a clerk carry out the
rules that are for them.

* The rules for a message are those of its folder.  When one of them moves it, the rules of the
  new folder follow, until the message stays or comes back to a folder where it has been.
* `Pass.run` works on all folders, `Pass.runOne` on a single message.
* A message that cannot be handled does not stop the pass.  Some errors end the work on its
  folder, which `Error.endsFolder` tells.
-/

namespace Mailroom

/-! ## The settings of a pass -/

/-- The folders that a pass leaves alone. -/
def skippedFolders : List Text := ["gmail.Spam", "gmail.Drafts", "gmail.Trash", "gmail.Sent_Mail"]

/-- How long ago, in seconds, a message may have been changed to count as recent, if nothing else
is said. -/
def defaultWindow : Int := 2 * 3600

/-- Whether an error ends the work on a folder: it concerns the files or the settings, not just
one message. -/
def Error.endsFolder : Error → Bool
  | .file _ | .missing _ | .config _ | .cancelled => true
  | .parse _ | .smtp _ => false

/-- A pass that is to be made. -/
structure Pass where
  /-- Where the folders are. -/
  maildir : Maildir
  /-- The rules. -/
  rules : List Rule
  /-- Who passes messages on. -/
  forwarder : Option Forwarder
  /-- Whether messages may be passed on. -/
  allowForwarding : Bool
  /-- Whether this is a trial only. -/
  dryRun : Bool
  /-- How long ago a message may have been changed, in seconds; `none` if that does not matter. -/
  window : Option Int
  /-- The present time. -/
  now : Time
  /-- Whether the pass was called off, after what was given to the post. -/
  calledOff : List Submission → Bool

namespace Pass

/-- The rules by folder. -/
def rulebook (p : Pass) : Rulebook := .ofRules p.rules p.now

/-- Who carries out the rules. -/
def clerk (p : Pass) : Clerk where
  maildir := p.maildir
  forwarder := if p.allowForwarding then p.forwarder else none
  dryRun := p.dryRun
  now := p.now

/-! ## One message -/

/-- Carries out those rules of a list that are for the message at hand. -/
def carryOut (p : Pass) : List Rule → Handling Unit
  | [] => return
  | r :: rest => do
    let v ← Reading.toEditing (Looking.toReading r.verdict)
    if v.applies then p.clerk.apply r
    carryOut p rest

/-- The folders that rules move messages to. -/
def destinations (p : Pass) : List Text := (TextSet.ofList (p.rules.filterMap Rule.moveTo)).toList

/-- Carries out the rules of each folder that the message comes to, as long as it is one of
those where the message has not been.  Every turn takes one of them away. -/
def follow (p : Pass) (fresh : List Text) : Handling Unit := do
  let folder := (← getThe Case).message.folder
  if h : folder ∈ fresh then
    p.carryOut (p.rulebook.folderRules folder)
    have : (fresh.erase folder).length < fresh.length := by
      have := List.length_pos_of_mem h
      rw [List.length_erase_of_mem h]
      omega
    p.follow (fresh.erase folder)
termination_by fresh.length

/-- Carries out some rules on the message at hand, and then those of each folder that it comes
to. -/
def handle (p : Pass) (rules : List Rule) : Handling Unit := do
  let start := (← getThe Case).message.folder
  p.carryOut rules
  p.follow (p.destinations.erase start)

/-! ## All messages -/

/-- Whether a message was changed recently; one that cannot be looked at was not. -/
def isRecent (p : Pass) (d : Disk) (e : Entry) : Bool :=
  match p.window with
  | none => true
  | some window =>
    match e.stat d with
    | .ok (s, _) => decide (p.now - window ≤ s.modified)
    | .error _ => false

/-- Stops if the pass was called off. -/
def checkpoint (p : Pass) : Work Unit := do
  if p.calledOff (← getThe Office).submissions then throw .cancelled

/-- Works on some messages of a folder. -/
def workThrough (p : Pass) (rules : List Rule) : List Entry → Work Unit
  | [] => return
  | e :: rest => do
    p.checkpoint
    if p.isRecent (← getThe Office).disk e then
      tryCatch ((p.handle rules).onMessage (.ofEntry e))
        (fun error => if error.endsFolder then throw error else return)
    workThrough p rules rest

/-- Works on a folder. -/
def workOn (p : Pass) (f : Folder) : Work Unit := do
  p.checkpoint
  let rules := p.rulebook.rulesFor f.name
  if rules.isEmpty then return
  let entries ← (f.messages p.maildir.listing (← getThe Office).disk : Except Error _)
  p.workThrough rules entries

/-- Works on some folders, until the pass is called off. -/
def workOnAll (p : Pass) : List Folder → Work Unit
  | [] => return
  | f :: rest => do
    if skippedFolders.contains f.name then workOnAll p rest
    else
      let outcome ← tryCatch (do p.workOn f; return none) (fun error => return some error)
      if outcome = some .cancelled then return
      workOnAll p rest

/-- Makes a pass through all folders.  It fails only if they cannot be listed. -/
def run (p : Pass) : Work Unit := do
  let folders ← (p.maildir.folders (← getThe Office).disk : Except Error _)
  p.workOnAll folders

/-- Works on one message, whenever it was changed. -/
def runOne (p : Pass) (folder name : Text) : Work Unit := do
  let e ← ((p.maildir.folder folder).find (← getThe Office).disk name : Except Error _)
  (p.handle (p.rulebook.rulesFor folder)).onMessage (.ofEntry e)

end Pass

end Mailroom
