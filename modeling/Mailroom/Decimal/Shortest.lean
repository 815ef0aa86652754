import Mailroom.Text

/-!
# The shortest decimal of a binary number

A number written in decimal is rounded to the nearest binary number of 53 digits, and shown with
the fewest decimal digits that round to it again.

* `nearest?` rounds; a tie goes to the even neighbour, and what is too large has no neighbour.
* `shortest` tries one digit after the other, up to seventeen; of two decimals of equal length it
  takes the nearer one, and of two that are equally near the even one.
-/

namespace Mailroom
namespace Decimal

/-- A number `digits · 10 ^ exponent`, perhaps below zero. -/
structure Scaled where
  /-- Whether it is below zero. -/
  negative : Bool
  /-- Its digits. -/
  digits : Nat
  /-- The power of ten that they count. -/
  exponent : Int
  deriving DecidableEq, Repr

/-- A fraction of natural numbers. -/
structure Fraction where
  /-- The numerator. -/
  num : Nat
  /-- The denominator. -/
  den : Nat

namespace Fraction

/-- `n · base ^ e`. -/
def ofScaled (n base : Nat) (e : Int) : Fraction :=
  if 0 ≤ e then ⟨n * base.pow e.toNat, 1⟩ else ⟨n, base.pow (-e).toNat⟩

/-- Whether one fraction is less than another. -/
def lt (a b : Fraction) : Bool := decide (a.num * b.den < b.num * a.den)

/-- The quotient of two fractions. -/
def div (a b : Fraction) : Fraction := ⟨a.num * b.den, a.den * b.num⟩

/-- The nearest natural number; a tie goes to the even one. -/
def round (a : Fraction) : Nat :=
  let q := a.num / a.den
  let r := 2 * (a.num % a.den)
  if r < a.den then q else if a.den < r then q + 1 else q + q % 2

/-- The least power of a base above a fraction that is not zero. -/
def magnitude (a : Fraction) (base : Nat) : Int :=
  let guess : Int := (Nat.toDigits base a.num).length - (Nat.toDigits base a.den).length
  if a.lt (ofScaled 1 base guess) then guess else guess + 1

end Fraction

/-- The least power of two that a binary number counts. -/
def leastPower : Int := -1074

/-- The greatest power of two that a binary number counts. -/
def greatestPower : Int := 971

/-- The least number with all digits of a binary number: 2 ^ 52. -/
def leastFull : Nat := 0x10000000000000

/-- The binary number nearest to `digits · 10 ^ e`, as `m · 2 ^ q`. -/
def nearest? (digits : Nat) (e : Int) : Option (Nat × Int) :=
  let size := (Nat.toDigits 10 digits).length
  if digits = 0 ∨ e + size < -400 then some (0, leastPower)
  else if 400 < e + size then none
  else
    let v := Fraction.ofScaled digits 10 e
    let q := max (v.magnitude 2 - 53) leastPower
    let m := (v.div (Fraction.ofScaled 1 2 q)).round
    let (m, q) := if m = 2 * leastFull then (leastFull, q + 1) else (m, q)
    if greatestPower < q then none else some (m, q)

/-- The decimal of `places` digits that rounds to `m · 2 ^ q`, if there is one. The interval of what
rounds there holds its ends when `m` is even. -/
def ofPlaces? (m : Nat) (q : Int) (places : Nat) : Option (Nat × Int) :=
  let quarter (n : Nat) := Fraction.ofScaled n 2 (q - 2)
  let v := quarter (4 * m)
  let low := quarter (if m = leastFull ∧ leastPower < q then 4 * m - 1 else 4 * m - 2)
  let high := quarter (4 * m + 2)
  let g := v.magnitude 10 - places
  let inside (x : Nat) : Bool :=
    let f := Fraction.ofScaled x 10 g
    if m % 2 = 0 then !f.lt low && !high.lt f else low.lt f && f.lt high
  let unit := v.div (Fraction.ofScaled 1 10 g)
  let below := unit.num / unit.den
  match inside below, inside (below + 1) with
  | true, true => some (unit.round, g)
  | true, false => some (below, g)
  | false, true => some (below + 1, g)
  | false, false => none

/-- Moves zeros at the end of a number into its exponent. -/
def dropZeros : Nat → Nat → Int → Nat × Int
  | 0, n, e => (n, e)
  | fuel + 1, n, e => if n ≠ 0 ∧ n % 10 = 0 then dropZeros fuel (n / 10) (e + 1) else (n, e)

/-- The shortest decimal of `m · 2 ^ q`. -/
def shortest (m : Nat) (q : Int) : Nat × Int :=
  if m = 0 then (0, 0)
  else
    let (n, e) := ((List.range 17).findSome? (fun i => ofPlaces? m q (i + 1))).getD (0, 0)
    dropZeros 20 n e

/-- Rounds a decimal to the nearest binary number and gives the shortest decimal of that. -/
def Scaled.settle? (s : Scaled) : Option Scaled :=
  (nearest? s.digits s.exponent).map fun b =>
    let (n, e) := shortest b.1 b.2
    { s with digits := n, exponent := e }

end Decimal
end Mailroom
