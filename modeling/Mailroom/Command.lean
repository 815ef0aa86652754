import Mailroom.Command.Arguments
import Mailroom.Command.Datum
import Mailroom.Pass
import Mailroom.Settings
import Mailroom.Vacuum

/-!
# The commands

`label-mail` makes a pass or a vacuum through all folders, `label-message` works on one message.
Both show what they did, as a text for people or as data for other programs.

* `runCommand` reads the arguments of a program and does what they ask for.
-/

namespace Mailroom

/-- What a command finds when it begins. -/
structure Situation where
  /-- The disk. -/
  disk : Disk
  /-- The folder that relative paths begin at. -/
  place : Path
  /-- The home folder. -/
  home : Text
  /-- The variables of the environment. -/
  environment : Variables
  /-- The present time. -/
  now : Time
  /-- How a letter reaches the mail server. -/
  deliver : SmtpSettings → Letter → Except Error Unit
  /-- Suggestions for the boundaries of letters. -/
  boundaries : List Text

/-- What comes of a command. -/
structure Outcome where
  /-- What it shows, or what stopped it. -/
  result : Except (UsageFault ⊕ Error) Text
  /-- The disk. -/
  disk : Disk

namespace Outcome

/-- The exit code of a command: one for work that was stopped, two for wrong arguments. -/
def code (o : Outcome) : Nat :=
  match o.result with
  | .ok _ => 0
  | .error (.inr _) => 1
  | .error (.inl _) => 2

/-- What a command shows. -/
def output (o : Outcome) : Text :=
  match o.result with
  | .ok t => t
  | .error _ => []

end Outcome

namespace Situation

/-- The place that a path leads to. -/
def locate (s : Situation) (path : Text) : Path := Path.join s.place path

/-- Where the files are, by the arguments and else at the usual places. -/
def places (s : Situation) (a : Arguments) : Places :=
  let usual := Places.under s.home
  { usual with
    maildir := (a.setting? "maildir").getD usual.maildir
    rules := (a.setting? "rules").getD usual.rules
    localRules := (a.setting? "local-rules").getD usual.localRules }

/-- The maildir, which has to exist. -/
def maildir (s : Situation) (a : Arguments) : Except Error Maildir :=
  let path := (s.places a).maildir
  let root := s.locate path
  if s.disk.isFolder root then .ok { root := root }
  else .error (.config ("Maildir " ++ path ++ " does not exist"))

/-- The rules of the environment. -/
def rules (s : Situation) (a : Arguments) : Except Error (List Rule) :=
  let places := s.places a
  loadRules s.disk (s.locate places.rules) (s.locate places.localRules)
    (environmentName s.disk (s.locate places.environment))

/-- Who passes messages on, if that is allowed. -/
def forwarder (s : Situation) (a : Arguments) : Except Error (Option Forwarder) :=
  if a.has "allow-forwarding" then do
    let settings ← SmtpSettings.ofVariables (variablesAt s.disk s.place s.environment)
    let sender ← Forwarder.senderOf settings.sender
    return some ⟨sender, SmtpSettings.post (s.deliver settings), s.boundaries⟩
  else .ok none

/-- The pass that the arguments ask for. -/
def pass (s : Situation) (a : Arguments) (m : Maildir) : Except Error Pass := do
  let rules ← s.rules a
  let forwarder ← s.forwarder a
  return {
    maildir := m
    rules := rules
    forwarder := forwarder
    allowForwarding := a.has "allow-forwarding"
    dryRun := a.has "dry-run"
    window := if a.has "all" then none else some defaultWindow
    now := s.now
    calledOff := fun _ => false }

end Situation

/-! ## What is shown -/

/-- A summary, as data or as a text. -/
def showSummary (asData : Bool) (s : Summary) : Text :=
  if asData then (Datum.fields (s.toList.map (fun e => (e.1, .number e.2)))).render ++ ['\n']
  else s.render

/-- A report, as data or as a text. -/
def showReport (asData : Bool) (r : VacuumReport) : Text :=
  if asData then
    (Datum.fields [("folders_removed", .list (r.removed.map .text)),
      ("messages_moved", .number r.moved), ("messages_rewritten", .number r.rewritten),
      ("failures", .number r.failures)]).render ++ ['\n']
  else r.render

/-! ## The commands -/

/-- Work that a command asks for, with what it shows. -/
def runWork (s : Situation) (a : Arguments) (work : Pass → Work Unit) (m : Maildir) :
    Except Error Text × Disk :=
  match s.pass a m with
  | .error e => (.error e, s.disk)
  | .ok p =>
    let (result, office) := work p (.ofDisk s.disk)
    (result.map (fun _ => showSummary (a.has "json") office.summary), office.disk)

/-- A vacuum that a command asks for, with what it shows. -/
def runVacuum (s : Situation) (a : Arguments) (m : Maildir) : Except Error Text × Disk :=
  let (result, disk) := Vacuum.run ⟨m, a.has "dry-run", false⟩ s.disk
  (result.map (showReport (a.has "json")), disk)

/-- Does what sorted arguments ask for. -/
def runArguments (p : Program) (a : Arguments) (s : Situation) : Except Error Text × Disk :=
  match s.maildir a with
  | .error e => (.error e, s.disk)
  | .ok m =>
    match p, a.operands with
    | .labelMessage, [folder, name] => runWork s a (fun p => p.runOne folder name) m
    | _, _ => if a.has "vacuum" then runVacuum s a m else runWork s a Pass.run m

/-- Does what the arguments of a program ask for. -/
def runCommand (p : Program) (arguments : List Text) (s : Situation) : Outcome :=
  match Arguments.read p arguments with
  | .error f => ⟨.error (.inl f), s.disk⟩
  | .ok a =>
    let (result, disk) := runArguments p a s
    ⟨result.mapError .inr, disk⟩

end Mailroom
