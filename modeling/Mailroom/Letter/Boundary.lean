import Mailroom.Text.Utf8

/-!
# The boundary of a letter

A boundary parts the parts of a letter, so it must not occur in the message that the letter
holds.

* `Boundary.pick` takes the first suggestion that does not occur in the message.  If there is none
  it counts: a message has fewer runs of thirty bytes than there are numerals to try.
-/

namespace Mailroom

namespace Boundary

/-- The length of a boundary. -/
def width : Nat := 30

/-- The characters of a boundary. -/
def digits : Text := "ABCDEFGHIJKLMNOPQRSTUVWXYZabcdefghijklmnopqrstuvwxyz0123456789"

/-- The numeral of a number, its last digit first. -/
def numeral : Nat → Nat → Text
  | 0, _ => []
  | width + 1, n => digits.getD (n % digits.length) 'A' :: numeral width (n / digits.length)

/-- Whether a boundary does not occur in a message. -/
def isFree (raw : Bytes) (boundary : Text) : Bool := !occurs (Utf8.encode boundary) raw

/-- The first numeral, counted from `n`, that does not occur in a message. -/
def count (raw : Bytes) : Nat → Nat → Text
  | 0, n => numeral width n
  | more + 1, n =>
    if isFree raw (numeral width n) then numeral width n else count raw more (n + 1)

/-- A boundary that does not occur in a message. -/
def pick (suggestions : List Text) (raw : Bytes) : Text :=
  (suggestions.find? (isFree raw)).getD (count raw raw.length 0)

end Boundary

end Mailroom
