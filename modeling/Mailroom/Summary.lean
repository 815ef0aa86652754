import Mailroom.Text.Sorted

/-!
# What a pass has done

A summary counts actions by their description.  Shown as text it is a table: descriptions flush
right, counts flush right, a rule of hyphens and the total.
-/

namespace Mailroom

/-- How often each action was done. -/
structure Summary where
  /-- The counts by description. -/
  counts : Dictionary Nat

namespace Summary

/-- Nothing done. -/
def empty : Summary := ⟨.empty⟩

instance : Inhabited Summary := ⟨empty⟩

/-- Adds to the count of an action. -/
def add (s : Summary) (action : Text) (n : Nat) : Summary :=
  ⟨s.counts.update action (fun old => old.getD 0 + n)⟩

/-- Counts an action once more. -/
def record (s : Summary) (action : Text) : Summary := s.add action 1

/-- The actions in increasing order, each with its count. -/
def toList (s : Summary) : List (Text × Nat) := s.counts.entries

/-- Adds all counts of another summary. -/
def merge (s other : Summary) : Summary := other.toList.foldl (fun s e => s.add e.1 e.2) s

/-- The count of an action. -/
def count (s : Summary) (action : Text) : Nat := (s.counts.find? action).getD 0

/-- The number of actions in all. -/
def total (s : Summary) : Nat := (s.toList.map Prod.snd).foldl (· + ·) 0

/-- Whether nothing was done. -/
def isEmpty (s : Summary) : Bool := s.total == 0

/-- One line of the table. -/
def line (width countWidth : Nat) (action : Text) (n : Nat) : Text :=
  Text.padLeft width action ++ " : " ++ Text.padLeft countWidth (Text.ofNat n) ++ ['\n']

/-- The summary as a table, or a remark if nothing was done. -/
def render (s : Summary) : Text :=
  if s.isEmpty then "Nothing to do.\n"
  else
    let heading : Text := "Total"
    let width := (s.toList.map (fun e => e.1.length)).foldl max heading.length
    let countWidth := (Text.ofNat s.total).length
    s.toList.flatMap (fun e => line width countWidth e.1 e.2) ++
      List.replicate (width + 3 + countWidth) '-' ++ ['\n'] ++
      line width countWidth heading s.total

end Summary

end Mailroom
