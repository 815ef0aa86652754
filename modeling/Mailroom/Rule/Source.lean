import Mailroom.Disk
import Mailroom.Rule.Decode
import Mailroom.Text.Utf8

/-!
# Where the rules come from

The rules of a run are those of all environments, then those of the present environment, then the
local ones, numbered in this order.

* `compileSources` takes the rules from two texts, `loadRules` from two files.
-/

namespace Mailroom

/-- The name of the environment whose rules count everywhere. -/
def allEnvironments : Text := "*"

/-- The written rules of an environment, in order. -/
def assemble (main : List (Text × List RawRule)) (localRules : List RawRule)
    (environment : Text) : List RawRule :=
  let rulesOf (e : Text) := (main.lookup e).getD []
  rulesOf allEnvironments ++
    (if environment = [] ∨ environment = allEnvironments then [] else rulesOf environment) ++
    localRules

/-- Compiles rules, which are numbered from `order` on; those without action are dropped. -/
def compileFrom (order : Nat) : List RawRule → Except Error (List Rule)
  | [] => .ok []
  | r :: rs => do
    let rule ← r.compile order
    let rest ← compileFrom (order + 1) rs
    return rule.toList ++ rest

/-- The result of reading rules. -/
def ofDecode {α : Type} : Except Rule.DecodeFault α → Except Error α
  | .ok a => .ok a
  | .error f => .error (.config ("Invalid rules file: " ++ f.message))

/-- The rules of an environment, from the text of the main rules and that of the local ones. -/
def compileSources (main localText environment : Text) : Except Error (List Rule) := do
  let byEnvironment ← ofDecode (Rule.decodeMain main)
  let localRules ← ofDecode (Rule.decodeLocal localText)
  compileFrom 0 (assemble byEnvironment localRules environment)

/-! ## Files -/

/-- Why a file holds no text. -/
inductive ReadFault where
  /-- It cannot be read. -/
  | file (fault : Fault)
  /-- It is not UTF-8. -/
  | notUtf8
  deriving DecidableEq, Repr

/-- The wording of a fault. -/
def ReadFault.message : ReadFault → Text
  | .file f => f.message
  | .notUtf8 => "stream did not contain valid UTF-8"

/-- The text of a file. -/
def Disk.readText (d : Disk) (p : Path) : Except ReadFault Text :=
  match d.read p with
  | .error f => .error (.file f)
  | .ok bytes =>
    match Utf8.decode? bytes with
    | some t => .ok t
    | none => .error .notUtf8

/-- The rules of an environment, from the file of the main rules and that of the local ones,
which need not exist.  `shown` says how a path is shown. -/
def loadRules (d : Disk) (main localPath : Path) (environment : Text)
    (shown : Path → Text := Path.render) : Except Error (List Rule) := do
  let mainText ← match d.readText main with
    | .ok t => .ok t
    | .error f => .error (.config ("Cannot read rules file " ++ shown main ++ ": " ++ f.message))
  let localText ← match d.readText localPath with
    | .ok t => .ok t
    | .error (.file .notFound) => .ok []
    | .error f =>
      .error (.config ("Cannot read local rules file " ++ shown localPath ++ ": " ++ f.message))
  compileSources mainText localText environment

end Mailroom
