import Mailroom.Text

/-!
# A place in a YAML document

A `Cursor` is what is left of a document, and where it stands: line, column, and the number of
characters before it.  Line breaks are the carriage return, the line feed, both together, and
three separators of Unicode; all but the latter two read as a line feed.
-/

namespace Mailroom
namespace Yaml

/-- Why a document cannot be read. -/
inductive Fault where
  /-- It holds a character that no document may hold. -/
  | forbiddenChar
  /-- A tab stands where blanks have to indent. -/
  | tabIndent
  /-- A character begins nothing that may stand there. -/
  | noToken
  /-- A list entry, a key or a value may not begin there. -/
  | misplaced
  /-- A key is not followed by a colon. -/
  | noColon
  /-- A quoted text does not end. -/
  | openQuote
  /-- A backslash is followed by nothing that it may be followed by. -/
  | badEscape
  /-- The line that begins a block text is wrong. -/
  | blockHeader
  /-- An anchor, an alias, a tag or a directive is wrong. -/
  | badName
  /-- The parts of the document do not fit together. -/
  | noContent
  /-- An alias names no finished node. -/
  | unknownAnchor
  /-- There is more than one document. -/
  | manyDocuments
  /-- Nodes are nested too deeply. -/
  | tooDeep
  deriving DecidableEq, Repr

/-- The wording of a fault. -/
def Fault.message : Fault → Text
  | .forbiddenChar => "control characters are not allowed"
  | .tabIndent => "found a tab character where an indentation blank is expected"
  | .noToken => "found character that cannot start any token"
  | .misplaced => "entries, keys or values are not allowed in this context"
  | .noColon => "could not find expected ':'"
  | .openQuote => "found unexpected end of a quoted scalar"
  | .badEscape => "found unknown escape character"
  | .blockHeader => "did not find expected comment or line break"
  | .badName => "did not find expected alphabetic or numeric character"
  | .noContent => "did not find expected node content"
  | .unknownAnchor => "unknown anchor"
  | .manyDocuments => "deserializing from YAML containing more than one document is not supported"
  | .tooDeep => "recursion limit exceeded"

/-! ## Characters -/

/-- Whether a character ends a line. -/
def isBreak (c : Char) : Bool :=
  c == '\n' || c == '\r' || c == '\x85' || c == '\u2028' || c == '\u2029'

/-- Whether a character is a blank or a tab. -/
def isSpace (c : Char) : Bool := c == ' ' || c == '\t'

/-- Whether a character may stand in a document at all. -/
def isAllowed (c : Char) : Bool :=
  let n := c.toNat
  n == 9 || n == 10 || n == 13 || (0x20 ≤ n && n ≤ 0x7E) || n == 0x85 || (0xA0 ≤ n && n ≤ 0xD7FF) ||
    (0xE000 ≤ n && n ≤ 0xFFFD && n != 0xFEFF) || 0x10000 ≤ n

/-- Whether a character may stand in the name of an anchor. -/
def isNameChar (c : Char) : Bool := c.isAlphanum || c == '_' || c == '-'

/-- Whether a text is over, or goes on with a blank, a tab or a line break. -/
def atGap : Text → Bool
  | [] => true
  | c :: _ => isSpace c || isBreak c

/-- Whether a text goes on with a blank or a tab. -/
def atSpace : Text → Bool
  | [] => false
  | c :: _ => isSpace c

/-- Whether a text goes on with a line break. -/
def atBreak : Text → Bool
  | [] => false
  | c :: _ => isBreak c

/-- Whether a text goes on with three of one character, and a gap after them. -/
def atMarker (c : Char) : Text → Bool
  | a :: b :: d :: rest => a == c && b == c && d == c && atGap rest
  | _ => false

/-! ## Cursors -/

/-- A place in a document. -/
structure Cursor where
  /-- What is left. -/
  rest : Text
  /-- How many characters came before. -/
  index : Nat
  /-- The number of the line, from 0. -/
  line : Nat
  /-- The number of the column, from 0. -/
  column : Nat
  deriving Repr

namespace Cursor

/-- Goes on by some characters of one line. -/
def skip (c : Cursor) (n : Nat) : Cursor :=
  { c with rest := c.rest.drop n, index := c.index + n, column := c.column + n }

/-- Goes on as long as characters of one line satisfy `p`; gives those characters, too. -/
def takeWhile (c : Cursor) (p : Char → Bool) : Text × Cursor :=
  let t := c.rest.takeWhile p
  (t, c.skip t.length)

/-- Goes on by a line break; gives what it reads as. -/
def skipBreak (c : Cursor) : Text × Cursor :=
  match c.rest with
  | '\r' :: '\n' :: rest => (['\n'], ⟨rest, c.index + 2, c.line + 1, 0⟩)
  | x :: rest =>
    if isBreak x then
      (if x == '\u2028' || x == '\u2029' then [x] else ['\n'], ⟨rest, c.index + 1, c.line + 1, 0⟩)
    else ([], c)
  | [] => ([], c)

end Cursor

/-! ## Joining lines -/

/-- What a run of line breaks inside a text becomes: the first line feed becomes a blank if no
other break follows, and goes away if one does. -/
def foldBreaks (first others : Text) : Text :=
  match first with
  | '\n' :: _ => if others.isEmpty then [' '] else others
  | _ => first ++ others

/-- What stands between two words of a quoted or plain text. -/
inductive Gap where
  /-- Blanks inside a line. -/
  | spaces (t : Text)
  /-- The end of a line: its break, and the breaks of the empty lines after it. -/
  | breaks (first others : Text)

/-- What a gap becomes. -/
def Gap.text : Gap → Text
  | .spaces t => t
  | .breaks first others => foldBreaks first others

/-- Whether a gap leads to another line. -/
def Gap.isBreak : Gap → Bool
  | .spaces _ => false
  | .breaks .. => true

/-- Reads blanks, tabs and line breaks.  `indent` is the least column at which a line may go on;
a tab before it is a fault. -/
def readGap (indent : Option Nat) : Nat → Gap → Cursor → Except Fault (Gap × Cursor)
  | 0, gap, c => .ok (gap, c)
  | fuel + 1, gap, c =>
    match c.rest with
    | x :: _ =>
      if isSpace x then
        match gap with
        | .spaces t => readGap indent fuel (.spaces (t ++ [x])) (c.skip 1)
        | .breaks .. =>
          if x == '\t' && (indent.map (fun i => decide (c.column < i))).getD false then
            .error .tabIndent
          else readGap indent fuel gap (c.skip 1)
      else if isBreak x then
        let (b, c) := c.skipBreak
        match gap with
        | .spaces _ => readGap indent fuel (.breaks b []) c
        | .breaks first others => readGap indent fuel (.breaks first (others ++ b)) c
      else .ok (gap, c)
    | [] => .ok (gap, c)

end Yaml
end Mailroom
