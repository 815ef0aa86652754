import Mailroom.Rule
import Mailroom.Text.Sorted

/-!
# Rules by folder

A rulebook holds rules under the folder that they are for; the rules for every folder are held
under the empty name.

* A rule that takes messages from one folder to another has a companion for the other one, with
  the same criteria, which takes away the label of the inbox.
* `Rulebook.rulesFor` gives the rules for a folder and those for every folder, in their order;
  `Rulebook.folderRules` gives only the former.
-/

namespace Mailroom

/-- Rules by folder. -/
structure Rulebook where
  /-- The rules under each name, in order. -/
  pages : Dictionary (List Rule)

/-- The rule with the time that a message has to be older than.  A time still to come is one that
no message is older than. -/
def Rule.stamped (r : Rule) (now : Time) : Rule :=
  if r.needsOkayDate then
    let okay := r.okayDateAt now
    { r with okayDate := some (if now < okay then Date.minTime else okay) }
  else r

/-- The rule that goes with a rule that moves messages from one folder to another. -/
def Rule.companion? (r : Rule) : Option Rule :=
  match r.criteria.folder, r.moveTo with
  | some source, some target =>
    if source = target then none
    else some { r with
      criteria := { r.criteria with folder := some target }
      clear := [Label.inbox.labelForm]
      label := []
      moveTo := none
      forward := [] }
  | _, _ => none

namespace Rulebook

/-- The rulebook without rules. -/
def empty : Rulebook := ⟨.empty⟩

/-- Adds a rule at the end of a page. -/
def enter (b : Rulebook) (page : Text) (r : Rule) : Rulebook :=
  ⟨b.pages.update page (fun rs => rs.getD [] ++ [r])⟩

/-- Adds a rule and its companion. -/
def add (now : Time) (b : Rulebook) (r : Rule) : Rulebook :=
  let r := r.stamped now
  let b := match r.companion? with
    | some c => b.enter (c.criteria.folder.getD []) c
    | none => b
  b.enter (r.criteria.folder.getD []) r

/-- The rulebook of some rules at a time. -/
def ofRules (rules : List Rule) (now : Time) : Rulebook := rules.foldl (add now) empty

/-- The rules of a page. -/
def page (b : Rulebook) (name : Text) : List Rule := (b.pages.find? name).getD []

/-- The rules for a folder only. -/
def folderRules (b : Rulebook) (folder : Text) : List Rule :=
  if folder.isEmpty then [] else b.page folder

/-- The rules for a folder and those for every folder, in their order. -/
def rulesFor (b : Rulebook) (folder : Text) : List Rule :=
  (b.page [] ++ b.folderRules folder).mergeSort (fun a b => decide (a.order ≤ b.order))

/-- The number of rules. -/
def size (b : Rulebook) : Nat := (b.pages.entries.map (fun e => e.2.length)).foldl (· + ·) 0

/-- Whether there is no rule. -/
def isEmpty (b : Rulebook) : Bool := b.size == 0

end Rulebook

end Mailroom
