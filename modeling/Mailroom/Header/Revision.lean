import Mailroom.Header.Field

/-!
# Revising a header block

`revise` gives fields of a message new values.  The lines of every old field of such a name are
dropped, with the lines that continue it; the new fields follow the kept ones.  The style of line
breaks is kept, and so is the body.
-/

namespace Mailroom

/-- The lines of a byte sequence, line feeds included. -/
def linesInclusive : Bytes → List Bytes
  | [] => []
  | b :: bs =>
    if b = 10 then [b] :: linesInclusive bs
    else match linesInclusive bs with
      | l :: ls => (b :: l) :: ls
      | [] => [[b]]

/-- Whether a line ends with a line feed. -/
def endsLine (line : Bytes) : Bool := line.getLast? == some 10

/-- A line without its line break. -/
def lineContent (line : Bytes) : Bytes :=
  if endsLine line then
    if line.dropLast.getLast? = some 13 then line.dropLast.dropLast else line.dropLast
  else line

/-- The name that a line gives to its field. -/
def lineName (content : Bytes) : Text :=
  Text.trim (Utf8.decodeLossy (content.takeWhile (· != 58)))

/-- Whether a field of a name gets a new value. -/
def isEdited (edits : List Field) (name : Text) : Bool :=
  edits.any (fun e => Text.sameName e.name name)

/-- The lines that are kept, up to the first empty one.  `dropping` tells whether the field that
the line before belongs to is dropped. -/
def keptLines (eol : Bytes) (edits : List Field) (dropping : Bool) : List Bytes → Bytes
  | [] => []
  | line :: lines =>
    let content := lineContent line
    if content.isEmpty then []
    else
      let dropping :=
        if beginsFolded content then dropping else isEdited edits (lineName content)
      (if dropping then [] else line ++ if endsLine line then [] else eol) ++
        keptLines eol edits dropping lines

/-- A field as it is written. -/
def writtenField (eol : Bytes) (f : Field) : Bytes :=
  Utf8.encode f.name ++ [58, 32] ++ Utf8.encode f.value ++ eol

/-- The line break that a header block uses. -/
def lineBreak (head : Bytes) : Bytes := if occurs [13, 10] head then [13, 10] else [10]

/-- A message with new values for some fields.  A field whose new value is empty goes away. -/
def revise (raw : Bytes) (bodyOffset : Nat) (edits : List Field) : Bytes :=
  let head := raw.take bodyOffset
  let eol := lineBreak head
  keptLines eol edits false (linesInclusive head) ++
    (edits.filter (fun e => !e.value.isEmpty)).flatMap (writtenField eol) ++
    eol ++ raw.drop bodyOffset

end Mailroom
