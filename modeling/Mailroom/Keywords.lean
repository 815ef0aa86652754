import Mailroom.Label
import Mailroom.Text.Blank
import Mailroom.Text.Sorted

/-!
# The keyword set of a message

The `Keywords` field is a loose list, its tokens parted by commas, blanks or both.  It is read as
a set of names in folder form and always written in one way: in increasing order, with a comma
and a blank between neighbours.
-/

namespace Mailroom

/-- Whether a character parts two tokens of the field. -/
def isTokenBreak (c : Char) : Bool := c == ',' || isBlank c

/-- The tokens of a field value, as they are written. -/
def keywordTokens (raw : Text) : List Text := Text.words isTokenBreak raw

/-- The keywords of a message, in folder form. -/
structure Keywords where
  /-- The names. -/
  names : TextSet
  deriving DecidableEq

namespace Keywords

/-- The name of the field. -/
def fieldName : Text := "Keywords"

/-- The set without keywords. -/
def empty : Keywords := ⟨.empty⟩

instance : Inhabited Keywords := ⟨empty⟩

/-- The keywords among some names of either form. -/
def ofList (l : List Text) : Keywords := ⟨.ofList (l.map resolveFolder)⟩

/-- Reads a field value. -/
def parse (raw : Text) : Keywords := ofList (keywordTokens raw)

/-- The keywords in increasing order. -/
def toList (k : Keywords) : List Text := k.names.toList

/-- Whether a keyword, in either form, is present. -/
def contains (k : Keywords) (name : Text) : Bool := k.names.contains (resolveFolder name)

/-- Adds a keyword in either form. -/
def insert (k : Keywords) (name : Text) : Keywords := ⟨k.names.insert (resolveFolder name)⟩

/-- Removes a keyword in either form. -/
def erase (k : Keywords) (name : Text) : Keywords := ⟨k.names.erase (resolveFolder name)⟩

/-- The number of keywords. -/
def size (k : Keywords) : Nat := k.toList.length

/-- Whether there is no keyword. -/
def isEmpty (k : Keywords) : Bool := k.toList.isEmpty

/-- The field value that is written for the set. -/
def render (k : Keywords) : Text := Text.join ", " k.toList

/-- Adds keywords and tells whether one of them was new. -/
def insertAll (k : Keywords) (names : List Text) : Keywords × Bool :=
  names.foldl (fun r n => (r.1.insert n, r.2 || !r.1.contains n)) (k, false)

/-- Removes keywords and tells whether one of them was present. -/
def eraseAll (k : Keywords) (names : List Text) : Keywords × Bool :=
  names.foldl (fun r n => (r.1.erase n, r.2 || r.1.contains n)) (k, false)

end Keywords

/-! ## Conforming tokens -/

/-- Letters and digits of ASCII, the underscore, the dot, the slash and the hyphen. -/
def isConformingChar (c : Char) : Bool :=
  c.isAlphanum || c == '_' || c == '.' || c == '/' || c == '-'

/-- Whether a field value holds a token with a character that does not conform. -/
def hasNonconforming (raw : Text) : Bool :=
  (keywordTokens raw).any (fun t => !t.all isConformingChar)

/-! ## Deprecated keywords -/

/-- Keywords that have been renamed, each with its present name. -/
def renamedKeywords : List (Text × Text) :=
  [("Network", "JunkSocial"), ("Discussion", "Teamwork"), ("OtherJunk", "JunkOther")]

/-- The present name of a keyword that has been renamed. -/
def replacement? (keyword : Text) : Option Text := renamedKeywords.lookup keyword

end Mailroom
