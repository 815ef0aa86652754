import Mailroom.Text

/-!
# Blanks

A blank is a character with the Unicode property `White_Space`.  `Text.trim` removes blanks from
both ends and keeps those inside.
-/

namespace Mailroom

/-- The property `White_Space`. -/
def isBlank (c : Char) : Bool :=
  let n := c.toNat
  (9 ≤ n && n ≤ 13) || n == 0x20 || n == 0x85 || n == 0xA0 || n == 0x1680 ||
    (0x2000 ≤ n && n ≤ 0x200A) || n == 0x2028 || n == 0x2029 || n == 0x202F || n == 0x205F ||
    n == 0x3000

namespace Text

/-- Removes blanks in front. -/
def trimLeft (t : Text) : Text := t.dropWhile isBlank

/-- Removes blanks at the end. -/
def trimRight (t : Text) : Text := dropEndWhile isBlank t

/-- Removes blanks at both ends. -/
def trim (t : Text) : Text := trimRight (trimLeft t)

/-- Whether a text holds blanks only. -/
def allBlank (t : Text) : Bool := t.all isBlank

end Text

end Mailroom
