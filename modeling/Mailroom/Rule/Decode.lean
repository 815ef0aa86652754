import Mailroom.Rule
import Mailroom.Yaml.Node

/-!
# Rules in YAML

The main rules are a mapping from environments to lists of rules, the local rules are one list.
A rule is a mapping; its keys are those of the tests and the actions, and all others are passed
over, though their values must have a meaning.

* A test compares with a text; nothing else will do.  An action takes a text, a number, a truth
  value or a list of these; what else a list holds counts as an empty text.
* A key that is known must not be repeated in a rule.
-/

namespace Mailroom
namespace Rule

open Yaml (Node Value)

/-- Why a document holds no rules. -/
inductive DecodeFault where
  /-- It is no YAML document. -/
  | document (fault : Yaml.Fault)
  /-- A mapping is missing. -/
  | notAMapping
  /-- A list is missing. -/
  | notAList
  /-- A text is missing. -/
  | notAText
  /-- A number of days is missing. -/
  | notDays
  /-- A value has no meaning. -/
  | noMeaning
  /-- A known key is repeated. -/
  | repeated (key : Text)
  deriving DecidableEq, Repr

/-- The wording of a fault. -/
def DecodeFault.message : DecodeFault → Text
  | .document f => f.message
  | .notAMapping => "invalid type, expected a map"
  | .notAList => "invalid type, expected a sequence"
  | .notAText => "invalid type, expected a string"
  | .notDays => "invalid type, expected i64"
  | .noMeaning => "data did not match any variant"
  | .repeated key => "duplicate field " ++ key

/-! ## Values -/

/-- Whether two keys of a list of entries are equal. -/
def hasRepeatedKey : List (Value × Value) → Bool
  | [] => false
  | e :: es => es.any (fun x => x.1 == e.1) || hasRepeatedKey es

mutual

/-- Whether no mapping inside a value has a key twice. -/
def isProper : Value → Bool
  | .list items => areProper items
  | .mapping entries => !hasRepeatedKey entries && areProperEntries entries
  | _ => true

/-- Whether values are proper. -/
def areProper : List Value → Bool
  | [] => true
  | v :: vs => isProper v && areProper vs

/-- Whether keys and values are proper. -/
def areProperEntries : List (Value × Value) → Bool
  | [] => true
  | (k, v) :: es => isProper k && isProper v && areProperEntries es

end

/-- The texts that an action is given. -/
def actionTexts (v : Value) : Except DecodeFault (List Text) :=
  if isProper v then
    .ok (match v with
      | .list items => items.map (fun v => v.scalarText?.getD [])
      | v => v.scalarText?.toList)
  else .error .noMeaning

/-- The text that a test compares with. -/
def testText : Value → Except DecodeFault (Option Text)
  | .null => .ok none
  | .text t => .ok (some t)
  | _ => .error .notAText

/-- The greatest number of days. -/
def greatestDays : Int := 0x7FFFFFFFFFFFFFFF

/-- The least number of days. -/
def leastDays : Int := -0x8000000000000000

/-- The number of days that a rule asks for. -/
def testDays : Value → Except DecodeFault (Option Int)
  | .null => .ok none
  | .int n => if leastDays ≤ n ∧ n ≤ greatestDays then .ok (some n) else .error .notDays
  | _ => .error .notDays

/-! ## Rules -/

/-- The text of a key. -/
def keyText : Node → Except DecodeFault Text
  | .scalar t _ _ => .ok t
  | _ => .error .notAText

/-- What a node means. -/
def meaning (n : Node) : Except DecodeFault Value :=
  match n.value? with
  | some v => .ok v
  | none => .error .noMeaning

/-- The entries of a mapping; a node that is left out has none. -/
def entriesOf : Node → Except DecodeFault (List (Node × Node))
  | .mapping entries _ => .ok entries
  | n => if n.isLeft then .ok [] else .error .notAMapping

/-- The items of a list; a node that is left out has none. -/
def itemsOf : Node → Except DecodeFault (List Node)
  | .list items _ => .ok items
  | n => if n.isLeft then .ok [] else .error .notAList

/-- Whether a node is null. -/
def isNull (n : Node) : Except DecodeFault Bool :=
  match n.isNull? with
  | some b => .ok b
  | none => .error .noMeaning

/-- The folder to move to: any text, as it is written. -/
def destination (n : Node) : Except DecodeFault (Option Text) := do
  if ← isNull n then return none else (keyText n).map some

/-- The rule without criteria and actions. -/
def blank : RawRule := ⟨.none, [], [], none, []⟩

/-- The names of the criteria that are no text tests. -/
def folderKey : Text := "folder"

/-- The name of the criterion of age. -/
def daysKey : Text := "days"

/-- The name of the action that removes labels. -/
def clearKey : Text := "clear"

/-- The name of the action that adds labels. -/
def labelKey : Text := "label"

/-- The name of the action that moves. -/
def moveKey : Text := "move"

/-- The name of the action that forwards. -/
def forwardKey : Text := "forward"

/-- The keys that a rule knows. -/
def knownKeys : List Text :=
  [folderKey, daysKey, clearKey, labelKey, moveKey, forwardKey] ++ TextTest.all.map TextTest.key

/-- Adds what one entry says to a rule. -/
def addEntry (r : RawRule) (key : Text) (n : Node) : Except DecodeFault RawRule := do
  if key = moveKey then return { r with moveTo := ← destination n }
  let v ← meaning n
  if key = clearKey then return { r with clear := ← actionTexts v }
  if key = labelKey then return { r with label := ← actionTexts v }
  if key = forwardKey then return { r with forward := ← actionTexts v }
  if key = folderKey then
    return { r with criteria := { r.criteria with folder := ← testText v } }
  if key = daysKey then
    return { r with criteria := { r.criteria with days := ← testDays v } }
  match TextTest.all.find? (fun t => t.key == key) with
  | some test =>
    let operand ← testText v
    return { r with criteria := { r.criteria with
      operand := fun t => if t = test then operand else r.criteria.operand t } }
  | none => return r

/-- Adds what entries say to a rule; `seen` are the known keys before them. -/
def addEntries (r : RawRule) (seen : List Text) :
    List (Node × Node) → Except DecodeFault RawRule
  | [] => .ok r
  | (k, n) :: es => do
    let key ← keyText k
    if seen.contains key then throw (.repeated key)
    let r ← addEntry r key n
    addEntries r (if knownKeys.contains key then key :: seen else seen) es

/-- The rule that a node holds. -/
def decodeRule (n : Node) : Except DecodeFault RawRule := do
  addEntries blank [] (← entriesOf n)

/-- The list of rules that a node holds, unless it is null. -/
def decodeRules (n : Node) : Except DecodeFault (List RawRule) := do
  if ← isNull n then return [] else (← itemsOf n).mapM decodeRule

/-- The lists of rules of a mapping from environments; of equal ones the last counts. -/
def decodeEnvironments : List (Node × Node) → Except DecodeFault (List (Text × List RawRule))
  | [] => .ok []
  | (k, n) :: es => do
    let environment ← keyText k
    let rules ← decodeRules n
    let rest ← decodeEnvironments es
    return if (rest.lookup environment).isSome then rest else (environment, rules) :: rest

/-- Reads a document; there may be none. -/
def readDocument (t : Text) : Except DecodeFault (Option Node) :=
  match Node.ofText? t with
  | .ok n => .ok n
  | .error f => .error (.document f)

/-- The main rules in a text, by environment. -/
def decodeMain (t : Text) : Except DecodeFault (List (Text × List RawRule)) := do
  if Text.allBlank t then return []
  match ← readDocument t with
  | none => return []
  | some n => decodeEnvironments (← entriesOf n)

/-- The local rules in a text. -/
def decodeLocal (t : Text) : Except DecodeFault (List RawRule) := do
  if Text.allBlank t then return []
  match ← readDocument t with
  | none => return []
  | some n => decodeRules n

end Rule
end Mailroom
