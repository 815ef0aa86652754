import Mailroom.Office
import Mailroom.Rule.Source
import Mailroom.Settings.EnvFile
import Mailroom.Text.Number

/-!
# Settings

Where the mailroom finds its files, in which environment it works, and how it sends letters.

* `Places.under` gives the usual places in the home folder.
* `environmentName` reads the name of the environment.
* `SmtpSettings.ofVariables` takes the settings of the mail server from variables.
-/

namespace Mailroom

/-! ## Places -/

/-- The text of a path, with a name added. -/
def joinedPath (place name : Text) : Text :=
  if place = [] ∨ place.getLast? = some '/' then place ++ name else place ++ '/' :: name

/-- Where the mailroom's files are. -/
structure Places where
  /-- The maildir. -/
  maildir : Text
  /-- The main rules. -/
  rules : Text
  /-- The local rules. -/
  localRules : Text
  /-- The name of the environment. -/
  environment : Text
  deriving DecidableEq, Repr

/-- The usual places in a home folder. -/
def Places.under (home : Text) : Places where
  maildir := joinedPath home "Mail"
  rules := joinedPath home ".label-mail.yml"
  localRules := joinedPath home ".label-mail.local.yml"
  environment := joinedPath home ".dotfile-environment"

/-! ## The environment -/

/-- The name of the environment in a file: its first line that is not blank.  A file that cannot
be read names none. -/
def environmentName (d : Disk) (p : Path) : Text :=
  match d.readText p with
  | .error _ => []
  | .ok t => (((Text.lines t).map Text.trim).find? (fun l => !l.isEmpty)).getD []

/-- The file of variables for a place: in its folder, or in the nearest one around it that has
one. -/
def envFile? (d : Disk) (place : Path) : Option Path :=
  let around := (List.range (place.length + 1)).reverse.map place.take
  (around.map (fun p => p ++ [(".env" : Text)])).find? d.isFile

/-- The variables, with those of the file of variables for a place. -/
def variablesAt (d : Disk) (place : Path) (vars : Variables) : Variables :=
  match envFile? d place with
  | none => vars
  | some p =>
    match d.read p with
    | .ok bytes => EnvFile.load vars bytes
    | .error _ => vars

/-! ## The mail server -/

/-- How letters are sent. -/
structure SmtpSettings where
  /-- The name of the server. -/
  host : Text
  /-- The number under which it listens. -/
  portNumber : Nat
  /-- The name of the user. -/
  username : Text
  /-- The password. -/
  password : Text
  /-- The address of the sender. -/
  sender : Text
  /-- How many seconds a delivery may take. -/
  timeout : Nat
  /-- Whether a server may show a certificate that is not valid. -/
  acceptInvalidCerts : Bool
  deriving DecidableEq, Repr

namespace SmtpSettings

/-- The greatest number under which a server listens. -/
def greatestPortNumber : Nat := 0xFFFF

/-- The greatest number of seconds. -/
def greatestTimeout : Nat := 0xFFFFFFFFFFFFFFFF

/-- The value of a variable that has to be set. -/
def required (vars : Variables) (name : Text) : Except Error Text :=
  match vars.find? name with
  | some value => .ok value
  | none => .error (.config (name ++ " not set"))

/-- The number in a variable. -/
def number (vars : Variables) (name : Text) (limit default : Nat) : Except Error Nat :=
  match vars.find? name with
  | none => .ok default
  | some value =>
    match readNat limit value with
    | .ok n => .ok n
    | .error f => .error (.config ("Invalid " ++ name ++ ": " ++ f.message))

/-- The texts that mean yes. -/
def affirmations : List Text := ["1", "true", "yes"]

/-- The settings that variables give. -/
def ofVariables (vars : Variables) : Except Error SmtpSettings := do
  let username ← required vars "SMTP_USERNAME"
  let portNumber ← number vars "SMTP_PORT" greatestPortNumber 587
  let password ← required vars "SMTP_PASSWORD"
  let timeout ← number vars "SMTP_TIMEOUT_SECS" greatestTimeout 30
  return {
    host := (vars.find? "SMTP_HOST").getD "smtp.gmail.com"
    portNumber := portNumber
    username := username
    password := password
    sender := (vars.find? "SMTP_FROM").getD username
    timeout := timeout
    acceptInvalidCerts :=
      ((vars.find? "SMTP_ACCEPT_INVALID_CERTS").map Text.trim).any affirmations.contains }

/-- The post that gives every letter to a mail server; a letter to nobody is not given to it. -/
def post (deliver : Letter → Except Error Unit) : Post where
  answer _ letter :=
    if letter.recipients.isEmpty then .error (.smtp "No envelope recipients") else deliver letter

/-- What becomes of every letter if the server cannot be reached. -/
def unreachable (s : SmtpSettings) (reason : Text) (_ : Letter) : Except Error Unit :=
  let address := s.host ++ ":" ++ Text.ofNat s.portNumber
  .error (.smtp ("Cannot connect to " ++ address ++ ": " ++ reason))

end SmtpSettings

end Mailroom
