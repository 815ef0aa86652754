import Mailroom.Text

/-!
# Text in a page

A page is text with tags.  Text that is to be shown as it is has its tag characters written in
another way; inside the quotes of a tag the quote counts as one of them.
-/

namespace Mailroom

namespace Markup

/-- The characters that begin or end something in a page, each with the way to write it. -/
def inText : List (Char × Text) := [('&', "&amp;"), ('<', "&lt;"), ('>', "&gt;")]

/-- The same inside the quotes of a tag. -/
def inQuotes : List (Char × Text) := ('"', "&quot;") :: inText

/-- Writes each character in its other way, if it has one. -/
def escape (table : List (Char × Text)) (t : Text) : Text :=
  t.flatMap (fun c => (table.lookup c).getD [c])

/-- A text as it is written between tags. -/
def text (t : Text) : Text := escape inText t

/-- A text as it is written inside the quotes of a tag. -/
def quoted (t : Text) : Text := escape inQuotes t

end Markup

end Mailroom
