import Mailroom.Message

/-!
# The vacuum

A vacuum goes through all folders.  Folders with a name that is no longer wanted are drained:
each message gets a better place, and a folder that is empty then is removed.  In every other
folder the keywords are tidied.

* `Vacuum.alternative` names the better place for a message.
* What fails is counted in the `VacuumReport` and stops nothing else.
-/

namespace Mailroom

/-! ## Unwanted folders -/

/-- The folders that are never wanted. -/
def unwantedNames : List Text :=
  ["Drafts", "Home_School", "Network", "OtherJunk", "Pseudo-Junk.Social",
   "Pseudo-Junk.Social_Network", "[", "]"]

/-- How names begin that are not wanted. -/
def unwantedBeginnings : List Text := ["+", "\\"]

/-- How names end that are not wanted. -/
def unwantedEndings : List Text := [","]

/-- Whether a folder is to be drained and removed. -/
def isUnwanted (name : Text) : Bool :=
  unwantedEndings.any (·.isSuffixOf name) || unwantedBeginnings.any (·.isPrefixOf name) ||
    unwantedNames.contains name

/-- Where a message goes if no better place is known. -/
def fallbackFolder : Text := "gmail.All_Mail"

/-- The text in a keyword that tells a message from a social network. -/
def socialMark : Text := "Social"

/-- Where messages from social networks go. -/
def socialFolder : Text := "JunkSocial"

/-! ## The report -/

/-- What a vacuum did. -/
structure VacuumReport where
  /-- The folders that were removed. -/
  removed : List Text
  /-- The number of messages that were moved. -/
  moved : Nat
  /-- The number of messages that were written anew. -/
  rewritten : Nat
  /-- The number of messages and folders that something failed for. -/
  failures : Nat
  deriving DecidableEq, Repr

namespace VacuumReport

/-- Nothing done. -/
def empty : VacuumReport := ⟨[], 0, 0, 0⟩

/-- A report as text. -/
def render (r : VacuumReport) : Text :=
  let line (t : Text) : Text := t ++ ['\n']
  line ("Folders removed:    " ++ Text.ofNat r.removed.length) ++
    r.removed.flatMap (fun f => line ("  " ++ f)) ++
    line ("Messages moved:     " ++ Text.ofNat r.moved) ++
    line ("Messages rewritten: " ++ Text.ofNat r.rewritten) ++
    if r.failures = 0 then [] else line ("Failures:           " ++ Text.ofNat r.failures)

end VacuumReport

/-! ## One message -/

/-- Puts the second keyword of each pair for the first one. -/
def exchangeKeywords : List (Text × Text) → Reading Unit
  | [] => return
  | (old, present) :: rest => do
    discard (Message.removeKeywords [old])
    discard (Message.addKeywords [present])
    exchangeKeywords rest

/-- Puts the present names for those keywords that have been renamed. -/
def renameKeywords : Reading Unit := do
  exchangeKeywords ((← Message.keywords).toList.filterMap
    (fun k => (replacement? k).map (fun present => (k, present))))

/-- The better place for the message at hand: that of the social networks if a keyword tells so,
else that of the first keyword.  The keyword of the folder that is drained does not count. -/
def alternative (drained : Text) : Reading Text := do
  let candidates := (← Message.keywords).toList.filter (· != drained)
  if candidates.any (occurs socialMark) then return socialFolder
  return (candidates.head?.map (Text.replace '/' '.')).getD fallbackFolder

/-- A vacuum that is to be made. -/
structure Vacuum where
  /-- Where the folders are. -/
  maildir : Maildir
  /-- Whether this is a trial only. -/
  dryRun : Bool
  /-- Whether it was called off. -/
  calledOff : Bool

/-- What a vacuum changes. -/
structure Sweep where
  /-- The disk. -/
  disk : Disk
  /-- What was done. -/
  report : VacuumReport

/-- Work of a vacuum. -/
abbrev Sweeping (α : Type) := ExceptT Error (StateM Sweep) α

namespace Sweeping

/-- Takes a message up and works on it. -/
def onMessage {α : Type} (e : Editing α) (entry : Entry) : Sweeping α := fun s =>
  let (result, desk) := e ⟨s.disk, .ofEntry entry⟩
  (result, { s with disk := desk.disk })

/-- Notes something in the report. -/
def note (change : VacuumReport → VacuumReport) : Sweeping Unit :=
  modifyThe Sweep fun s => { s with report := change s.report }

/-- Counts a failure. -/
def noteFailure : Sweeping Unit := note fun r => { r with failures := r.failures + 1 }

/-- What came of some work. -/
def attempt {α : Type} (w : Sweeping α) : Sweeping (Except Error α) :=
  tryCatch (.ok <$> w) (fun e => return .error e)

end Sweeping

namespace Vacuum

/-- Where the message at hand goes from a folder that is drained: to the better place, if it is
another one, wanted and there. -/
def destination (v : Vacuum) (drained : Text) : Editing Text := do
  let name ← Reading.toEditing (alternative drained)
  let there := (v.maildir.folder name).isThere (← getThe Desk).disk
  return if name == drained || isUnwanted name || !there then fallbackFolder else name

/-- Gives the message at hand a better place. -/
def rehome (v : Vacuum) (drained : Text) : Editing Unit := do
  Reading.toEditing renameKeywords
  let name ← v.destination drained
  discard (Reading.toEditing (Message.removeKeywords [drained]) : Editing Bool)
  if !v.dryRun then
    discard Message.save
    Message.moveTo (v.maildir.folder name)

/-- Tidies the keywords of the message at hand, and tells whether it has to be written anew. -/
def tidyMessage (v : Vacuum) : Editing Bool := do
  if ← Reading.toEditing Message.hasNonconformingKeywords then
    discard (Reading.toEditing Message.tidyKeywords : Editing Bool)
  Reading.toEditing renameKeywords
  if !(← getThe Desk).message.isDirty then return false
  if !v.dryRun then discard Message.save
  return true

/-! ## One folder -/

/-- Gives messages of a folder a better place, and tells how many did not get one. -/
def rehomeAll (v : Vacuum) (drained : Text) : List Entry → Sweeping Nat
  | [] => return 0
  | e :: rest => do
    match ← (Sweeping.onMessage (v.rehome drained) e).attempt with
    | .ok () =>
      Sweeping.note fun r => { r with moved := r.moved + 1 }
      rehomeAll v drained rest
    | .error _ =>
      Sweeping.noteFailure
      return (← rehomeAll v drained rest) + 1

/-- Removes a folder that was drained. -/
def remove (v : Vacuum) (name : Text) : Sweeping Unit := do
  let removed ← if v.dryRun then pure true else fun s =>
    let (result, disk) := v.maildir.removeFolder name s.disk
    (.ok result.toBool, { s with disk := disk })
  if removed then Sweeping.note fun r => { r with removed := r.removed ++ [name] }
  else Sweeping.noteFailure

/-- Gives all messages of a folder a better place, and removes it if all of them got one. -/
def drain (v : Vacuum) (f : Folder) : Sweeping Unit := do
  let entries ← (f.messages v.maildir.listing (← getThe Sweep).disk : Except Error _)
  let stranded ← v.rehomeAll f.name entries
  if stranded = 0 then v.remove f.name

/-- Tidies the keywords of messages. -/
def tidyAll (v : Vacuum) : List Entry → Sweeping Unit
  | [] => return
  | e :: rest => do
    match ← (Sweeping.onMessage v.tidyMessage e).attempt with
    | .ok true => Sweeping.note fun r => { r with rewritten := r.rewritten + 1 }
    | .ok false => pure ()
    | .error _ => Sweeping.noteFailure
    tidyAll v rest

/-- Tidies the keywords of all messages of a folder. -/
def tidy (v : Vacuum) (f : Folder) : Sweeping Unit := do
  let entries ← (f.messages v.maildir.listing (← getThe Sweep).disk : Except Error _)
  v.tidyAll entries

/-! ## All folders -/

/-- Goes through some folders. -/
def sweepAll (v : Vacuum) : List Folder → Sweeping Unit
  | [] => return
  | f :: rest => do
    match ← (if isUnwanted f.name then v.drain f else v.tidy f).attempt with
    | .ok () => pure ()
    | .error _ => Sweeping.noteFailure
    sweepAll v rest

/-- Goes through all folders.  It fails only if they cannot be listed. -/
def run (v : Vacuum) (d : Disk) : Except Error VacuumReport × Disk :=
  match v.maildir.folders d with
  | .error e => (.error e, d)
  | .ok folders =>
    let (result, s) := v.sweepAll (if v.calledOff then [] else folders) ⟨d, .empty⟩
    (result.map (fun _ => s.report), s.disk)

end Vacuum

end Mailroom
