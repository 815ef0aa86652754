import Mailroom.Text

/-!
# Numbers in text

`readNat` reads a number of limited size and says what is wrong with a text that is none; the
first character at fault decides.
-/

namespace Mailroom

/-- Why a text is no number of the wanted size. -/
inductive NumberFault where
  /-- There is no text. -/
  | empty
  /-- A character is no digit, or there is a sign and no digit. -/
  | invalidDigit
  /-- The number is above the limit. -/
  | tooLarge
  deriving DecidableEq, Repr

/-- The wording of a fault. -/
def NumberFault.message : NumberFault → Text
  | .empty => "cannot parse integer from empty string"
  | .invalidDigit => "invalid digit found in string"
  | .tooLarge => "number too large to fit in target type"

/-- Appends a digit to a number of limited size. -/
def appendDigit (limit acc : Nat) (c : Char) : Except NumberFault Nat :=
  if c.isDigit then
    let n := acc * 10 + (c.toNat - 48)
    if n ≤ limit then .ok n else .error .tooLarge
  else .error .invalidDigit

/-- Reads the digits of a number of limited size. -/
def readDigits (limit : Nat) (t : Text) : Except NumberFault Nat :=
  if t.isEmpty then .error .invalidDigit else t.foldlM (appendDigit limit) 0

/-- Reads a number without sign, or with a plus, up to a limit. -/
def readNat (limit : Nat) (t : Text) : Except NumberFault Nat :=
  match t with
  | [] => .error .empty
  | '+' :: ds => readDigits limit ds
  | ds => readDigits limit ds

/-- Reads a number with or without sign whose amount is within a limit. -/
def readInt? (limit : Nat) (t : Text) : Option Int :=
  match t with
  | '-' :: ds => (readDigits limit ds).toOption.map (fun n => -(n : Int))
  | ds => (readNat limit ds).toOption.map (fun n => (n : Int))

end Mailroom
