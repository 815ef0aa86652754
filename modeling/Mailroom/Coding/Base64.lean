import Mailroom.Text

/-!
# Base64

Three bytes are written as four letters; a final group of one or two bytes is filled up with `=`.

* `Base64.decode?` reads group by group and refuses a letter outside the alphabet and a group
  that is not full.  A filled group need not be the last one.
-/

namespace Mailroom
namespace Base64

/-- The letter of a value below 64. -/
def letter (n : Nat) : Char :=
  if n < 26 then Char.ofNat (65 + n)
  else if n < 52 then Char.ofNat (71 + n)
  else if n < 62 then Char.ofNat (n - 4)
  else if n = 62 then '+' else '/'

/-- The value of a letter of the alphabet. -/
def value? (b : UInt8) : Option Nat :=
  let n := b.toNat
  if 65 ≤ n ∧ n ≤ 90 then some (n - 65)
  else if 97 ≤ n ∧ n ≤ 122 then some (n - 71)
  else if 48 ≤ n ∧ n ≤ 57 then some (n + 4)
  else if n = 43 then some 62
  else if n = 47 then some 63
  else none

/-- The letters of a byte sequence. -/
def encode : Bytes → Text
  | a :: b :: c :: rest =>
    let n := a.toNat * 65536 + b.toNat * 256 + c.toNat
    letter (n / 262144) :: letter (n / 4096 % 64) :: letter (n / 64 % 64) :: letter (n % 64) ::
      encode rest
  | [a, b] =>
    let n := a.toNat * 65536 + b.toNat * 256
    [letter (n / 262144), letter (n / 4096 % 64), letter (n / 64 % 64), '=']
  | [a] =>
    let n := a.toNat * 65536
    [letter (n / 262144), letter (n / 4096 % 64), '=', '=']
  | [] => []

/-- The bytes of one group of four letters. -/
def group? (a b c d : UInt8) : Option Bytes := do
  let x ← value? a
  let y ← value? b
  let first := UInt8.ofNat (x * 4 + y / 16)
  if c = 61 ∧ d = 61 then return [first]
  let z ← value? c
  let second := UInt8.ofNat (y % 16 * 16 + z / 4)
  if d = 61 then return [first, second]
  let w ← value? d
  return [first, second, UInt8.ofNat (z % 4 * 64 + w)]

/-- The bytes that a sequence of letters stands for. -/
def decode? : Bytes → Option Bytes
  | [] => some []
  | a :: b :: c :: d :: rest => do
    let g ← group? a b c d
    let r ← decode? rest
    return g ++ r
  | _ => none

/-- Whether a byte is a blank of ASCII: blank, tab, line feed, form feed or carriage return. -/
def isAsciiBlank (b : UInt8) : Bool := b == 32 || b == 9 || b == 10 || b == 12 || b == 13

end Base64
end Mailroom
