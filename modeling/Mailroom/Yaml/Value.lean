import Mailroom.Decimal.Shortest
import Mailroom.Text.Number

/-!
# What a plain text means

A plain text of a YAML document is null, a truth value, a number, or itself.  Integers are written
in decimal without leading zeros, or with `0x`, `0o` or `0b` in front; all other numbers are
decimals with a point or an exponent, infinities, or no number at all.

* `Value.ofPlain` says what a plain text means, and `Value.scalarText?` writes it again.
-/

namespace Mailroom
namespace Yaml

/-- A number that is no integer. -/
inductive Real where
  /-- A finite number, as its shortest decimal. -/
  | finite (value : Decimal.Scaled)
  /-- Infinity, perhaps below zero. -/
  | infinite (negative : Bool)
  /-- No number. -/
  | notANumber
  deriving DecidableEq, Repr

/-- What a node means. -/
inductive Value where
  /-- Nothing. -/
  | null
  /-- A truth value. -/
  | bool (b : Bool)
  /-- An integer. -/
  | int (n : Int)
  /-- Another number. -/
  | real (r : Real)
  /-- A text. -/
  | text (t : Text)
  /-- A list. -/
  | list (items : List Value)
  /-- Keys and their values. -/
  | mapping (entries : List (Value × Value))
  deriving Repr, BEq

namespace Value

/-! ## Reading -/

/-- Whether a text is a spelling of null. -/
def isNullText (t : Text) : Bool :=
  ([("null" : Text), "Null", "NULL", "~"]).contains t

/-- The truth value that a text spells. -/
def boolOf? (t : Text) : Option Bool :=
  if ([("true" : Text), "True", "TRUE"]).contains t then some true
  else if ([("false" : Text), "False", "FALSE"]).contains t then some false
  else none

/-- Whether a text is a row of digits that begins with a zero, which is no number. -/
def isPaddedDigits (t : Text) : Bool :=
  let t := match t with
    | '+' :: r => r
    | '-' :: r => r
    | t => t
  match t with
  | '0' :: c :: r => (c :: r).all Char.isDigit
  | _ => false

/-- The digits and the base of an integer without sign. -/
def baseOf (t : Text) : Nat × Text :=
  match t with
  | '0' :: 'x' :: r => (16, r)
  | '0' :: 'o' :: r => (8, r)
  | '0' :: 'b' :: r => (2, r)
  | t => (10, t)

/-- The amount of an integer without sign. -/
def amount? (t : Text) : Option Nat :=
  let (base, digits) := baseOf t
  Text.toNat? base digits

/-- The integer that a text spells. -/
def intOf? (t : Text) : Option Int :=
  if isPaddedDigits t then none
  else match t with
    | '+' :: r => (amount? r).map (fun n => (n : Int))
    | '-' :: r => (amount? r).map (fun n => -(n : Int))
    | t => (amount? t).map (fun n => (n : Int))

/-- The exponent that the end of a decimal spells. -/
def exponentOf? : Text → Option Int
  | [] => some 0
  | e :: r =>
    if e = 'e' ∨ e = 'E' then
      match r with
      | '-' :: r => (Text.toNat? 10 r).map (fun n => -(n : Int))
      | '+' :: r => (Text.toNat? 10 r).map (fun n => (n : Int))
      | r => (Text.toNat? 10 r).map (fun n => (n : Int))
    else none

/-- The decimal that a text without plus sign spells. -/
def decimalOf? (t : Text) : Option Decimal.Scaled :=
  let (negative, t) := match t with
    | '-' :: r => (true, r)
    | t => (false, t)
  let whole := t.takeWhile Char.isDigit
  let (part, t) := match t.dropWhile Char.isDigit with
    | '.' :: r => (r.takeWhile Char.isDigit, r.dropWhile Char.isDigit)
    | t => ([], t)
  match Text.toNat? 10 (whole ++ part), exponentOf? t with
  | some digits, some exponent => some ⟨negative, digits, exponent - part.length⟩
  | _, _ => none

/-- The number that a text spells, if it is no integer. -/
def realOf? (t : Text) : Option Real :=
  let unsigned : Option Text := match t with
    | '+' :: '+' :: _ => none
    | '+' :: '-' :: _ => none
    | '+' :: r => some r
    | t => some t
  let infinities : List Text := [".inf", ".Inf", ".INF"]
  match unsigned with
  | none => none
  | some u =>
    if infinities.contains u then some (.infinite false)
    else if infinities.contains (t.drop 1) && t.head? == some '-' then some (.infinite true)
    else if ([(".nan" : Text), ".NaN", ".NAN"]).contains t then some .notANumber
    else ((decimalOf? u).bind Decimal.Scaled.settle?).map .finite

/-- The greatest integer that a value can be. -/
def greatestInt : Int := 0xFFFFFFFFFFFFFFFF

/-- The least integer that a value can be. -/
def leastInt : Int := -0x8000000000000000

/-- Half the limit of the integers that are read as integers at all: 2 ^ 127. -/
def wideLimit : Int := 0x80000000000000000000000000000000

/-- What an integer means: a number too great for a value but below 2 ^ 128 has no meaning, and
one that is greater still is a number that is no integer. -/
def ofInt? (n : Int) (t : Text) : Option Value :=
  if leastInt ≤ n ∧ n ≤ greatestInt then some (.int n)
  else if -wideLimit ≤ n ∧ n < 2 * wideLimit then none
  else some (match realOf? t with
    | some r => .real r
    | none => .text t)

/-- What a plain text means; `none` for a number that cannot be held. -/
def ofPlain (t : Text) : Option Value :=
  if t.isEmpty || isNullText t then some .null
  else match boolOf? t with
    | some b => some (.bool b)
    | none =>
      match intOf? t with
      | some n => ofInt? n t
      | none =>
        if isPaddedDigits t then some (.text t)
        else match realOf? t with
          | some r => some (.real r)
          | none => some (.text t)

/-! ## Writing -/

/-- A decimal as it is written: with a point and at least one digit after it, or with an exponent
where the point would be more than sixteen digits after the first one or more than four zeros
before it. -/
def decimalText (s : Decimal.Scaled) : Text :=
  let digits := Text.ofNat s.digits
  let length : Int := digits.length
  let point := length + s.exponent
  let body : Text :=
    if s.digits = 0 then "0.0"
    else if 0 ≤ s.exponent ∧ point ≤ 16 then
      digits ++ List.replicate s.exponent.toNat '0' ++ ".0"
    else if 0 < point ∧ point ≤ 16 then
      digits.take point.toNat ++ ['.'] ++ digits.drop point.toNat
    else if -5 < point ∧ point ≤ 0 then
      "0." ++ List.replicate (-point).toNat '0' ++ digits
    else
      let exponent := point - 1
      let sign : Text := if exponent < 0 then ['-'] else []
      let rest := if digits.length = 1 then [] else ['.'] ++ digits.drop 1
      digits.take 1 ++ rest ++ ['e'] ++ sign ++ Text.ofNat exponent.natAbs
  (if s.negative then ['-'] else []) ++ body

/-- The text of a number that is no integer. -/
def realText : Real → Text
  | .finite s => decimalText s
  | .infinite false => ".inf"
  | .infinite true => "-.inf"
  | .notANumber => ".nan"

/-- The text of an integer. -/
def intText (n : Int) : Text :=
  (if n < 0 then ['-'] else []) ++ Text.ofNat n.natAbs

/-- The text of a value that is neither null nor made of others. -/
def scalarText? : Value → Option Text
  | text t => some t
  | int n => some (intText n)
  | real r => some (realText r)
  | bool true => some "true"
  | bool false => some "false"
  | _ => none

end Value

end Yaml
end Mailroom
