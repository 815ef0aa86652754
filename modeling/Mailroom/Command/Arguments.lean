import Mailroom.Text

/-!
# The arguments of a command

An argument that begins with two hyphens is an option: a switch, or a setting with a value behind
an equals sign or in the next argument.  Letters behind one hyphen are short switches.  All other
arguments are operands, and so is everything behind `--`.

* `Arguments.read` sorts the arguments of a program and refuses what the program does not take.
-/

namespace Mailroom

/-- The programs. -/
inductive Program where
  /-- Works on all folders. -/
  | labelMail
  /-- Works on one message. -/
  | labelMessage
  deriving DecidableEq, Repr

namespace Program

/-- The switch that may be repeated, with its short form. -/
def verboseSwitch : Text × Char := ("verbose", 'v')

/-- The switches of a program. -/
def switches : Program → List Text
  | labelMail => ["dry-run", "verbose", "allow-forwarding", "json", "all", "vacuum"]
  | labelMessage => ["dry-run", "verbose", "allow-forwarding", "json"]

/-- The settings of a program. -/
def settings (_ : Program) : List Text := ["maildir", "rules", "local-rules"]

/-- How many operands a program takes. -/
def operandCount : Program → Nat
  | labelMail => 0
  | labelMessage => 2

end Program

/-- What is wrong with arguments. -/
inductive UsageFault where
  /-- An option that the program does not have. -/
  | unknown (argument : Text)
  /-- An option that is given twice. -/
  | repeated (name : Text)
  /-- A setting without a value. -/
  | missingValue (name : Text)
  /-- A switch with a value. -/
  | unwantedValue (name : Text)
  /-- Too few or too many operands. -/
  | wrongCount (count : Nat)
  deriving DecidableEq, Repr

/-- The wording of a fault. -/
def UsageFault.message : UsageFault → Text
  | unknown argument => "unexpected argument '" ++ argument ++ "'"
  | repeated name => "the argument '--" ++ name ++ "' cannot be used multiple times"
  | missingValue name => "a value is required for '--" ++ name ++ "'"
  | unwantedValue name => "no value is expected for '--" ++ name ++ "'"
  | wrongCount count => "wrong number of arguments: " ++ Text.ofNat count

/-- The arguments of a program, sorted. -/
structure Arguments where
  /-- The switches. -/
  switches : List Text
  /-- The settings and their values. -/
  settings : List (Text × Text)
  /-- The operands. -/
  operands : List Text
  deriving DecidableEq, Repr

namespace Arguments

/-- No arguments. -/
def empty : Arguments := ⟨[], [], []⟩

/-- Whether an argument may be the value of a setting: it is not empty and no option. -/
def isValue : Text → Bool
  | [] => false
  | ['-'] => true
  | c :: _ => c != '-'

/-- What an argument is by its form. -/
inductive Form where
  /-- All that follows are operands. -/
  | stop
  /-- An option, perhaps with a value. -/
  | option (name : Text) (value : Option Text)
  /-- Short switches. -/
  | letters (cs : Text)
  /-- An operand. -/
  | operand (t : Text)
  deriving DecidableEq, Repr

/-- What an argument is by its form. -/
def Form.of : Text → Form
  | ['-', '-'] => .stop
  | '-' :: '-' :: t =>
    match Text.cut '=' t with
    | some (name, value) => .option name (some value)
    | none => .option t none
  | ['-'] => .operand ['-']
  | '-' :: cs => .letters cs
  | t => .operand t

/-- Sorts arguments.  `waiting` is a setting whose value has to be next. -/
def sort (p : Program) (waiting : Option Text) : List Text → Except UsageFault Arguments
  | [] =>
    match waiting with
    | some name => .error (.missingValue name)
    | none => .ok empty
  | a :: rest =>
    match waiting with
    | some name =>
      if isValue a then do
        let r ← sort p none rest
        return { r with settings := (name, a) :: r.settings }
      else .error (.missingValue name)
    | none =>
      match Form.of a with
      | .stop => .ok { empty with operands := rest }
      | .operand t => do
        let r ← sort p none rest
        return { r with operands := t :: r.operands }
      | .letters cs =>
        if cs.all (· == Program.verboseSwitch.2) then do
          let r ← sort p none rest
          return { r with switches := cs.map (fun _ => Program.verboseSwitch.1) ++ r.switches }
        else .error (.unknown a)
      | .option name value =>
        if p.switches.contains name then
          if value.isSome then .error (.unwantedValue name)
          else do
            let r ← sort p none rest
            return { r with switches := name :: r.switches }
        else if p.settings.contains name then
          match value with
          | none => sort p (some name) rest
          | some [] => .error (.missingValue name)
          | some value => do
            let r ← sort p none rest
            return { r with settings := (name, value) :: r.settings }
        else .error (.unknown a)

/-- A name that occurs twice in a list. -/
def repeated? : List Text → Option Text
  | [] => none
  | name :: rest => if rest.contains name then some name else repeated? rest

/-- Sorts the arguments of a program and checks them. -/
def read (p : Program) (arguments : List Text) : Except UsageFault Arguments := do
  let a ← sort p none arguments
  let once := a.switches.filter (· != Program.verboseSwitch.1) ++ a.settings.map Prod.fst
  match repeated? once with
  | some name => .error (.repeated name)
  | none =>
    if a.operands.length = p.operandCount then .ok a
    else .error (.wrongCount a.operands.length)

/-- Whether a switch is given. -/
def has (a : Arguments) (name : Text) : Bool := a.switches.contains name

/-- The value of a setting. -/
def setting? (a : Arguments) (name : Text) : Option Text := a.settings.lookup name

end Arguments

end Mailroom
