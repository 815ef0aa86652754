import Mailroom.Letter.Boundary
import Mailroom.Letter.Citation
import Mailroom.Mime.Part

/-!
# The letter that passes a message on

The letter has a header block of its own and one part for every leaf of the message, in order.
All bodies are in base 64.  The first plain text and the first page that are to be shown with the
message begin with its citation.

* `Enclosure.ofLeaves` makes the parts, `Copy.render` writes the letter.
-/

namespace Mailroom

/-! ## Enclosures -/

/-- A part of the letter. -/
structure Enclosure where
  /-- The value of its `Content-Type` field. -/
  type : Text
  /-- The value of its `Content-Disposition` field. -/
  disposition : Text
  /-- What it holds. -/
  content : Bytes

/-- Which kinds of part have the citation already. -/
structure Cited where
  /-- A plain text has it. -/
  text : Bool
  /-- A page has it. -/
  page : Bool

namespace Enclosure

/-- A value between quotes, without the quotes that it holds itself. -/
def quote (t : Text) : Text := ['"'] ++ Text.without '"' t ++ ['"']

/-- The type of a leaf and its parameters, but for the boundary. -/
def typeOf (leaf : Part) : Text :=
  leaf.type.mimeType ++ (leaf.type.params.entries.filter
    (fun p => !Text.sameName p.1 "boundary")).flatMap
      (fun p => ("; " : Text) ++ p.1 ++ ['='] ++ quote p.2)

/-- How a leaf is to be shown, and its file name. -/
def dispositionOf (leaf : Part) : Text :=
  (if leaf.isAttachment then ("attachment" : Text) else ("inline" : Text)) ++
    match leaf.disposition.params.find? "filename" with
    | some name => "; filename=" ++ quote name
    | none => []

/-- The result of undoing a transfer coding. -/
def ofCoding {α : Type} : Option α → Except Error α
  | some a => .ok a
  | none => .error (.parse "Base64 decode error: invalid data")

/-- The part for a leaf, and which kinds of part have the citation after it. -/
def ofLeaf (citation : Citation) (cited : Cited) (leaf : Part) :
    Except Error (Enclosure × Cited) := do
  let disposition := dispositionOf leaf
  if leaf.isInline && leaf.type.mimeType == "text/plain".toList then
    let t ← ofCoding leaf.text?
    let t := if cited.text then t else citation.asText ++ t
    return (⟨"text/plain; charset=\"utf-8\"", disposition, Utf8.encode t⟩,
      { cited with text := true })
  else if leaf.isInline && leaf.type.mimeType == "text/html".toList then
    let t ← ofCoding leaf.text?
    let t := if cited.page then t else insertIntoPage citation.asPage t
    return (⟨"text/html; charset=\"utf-8\"", disposition, Utf8.encode t⟩,
      { cited with page := true })
  else
    return (⟨typeOf leaf, disposition, ← ofCoding leaf.content?⟩, cited)

/-- The parts for some leaves. -/
def ofLeaves (citation : Citation) : Cited → List Part → Except Error (List Enclosure)
  | _, [] => .ok []
  | cited, leaf :: leaves => do
    let (e, cited) ← ofLeaf citation cited leaf
    let rest ← ofLeaves citation cited leaves
    return e :: rest

end Enclosure

/-! ## Writing -/

/-- A field of a letter. -/
def writtenLine (name value : Text) : Text := name ++ ": " ++ value ++ crlf

/-- A value in a form that only needs ASCII. -/
def encodedValue (t : Text) : Text :=
  if Text.isAscii t then t else "=?utf-8?B?" ++ Base64.encode (Utf8.encode t) ++ "?="

/-- The length of a full line in base 64. -/
def base64Width : Nat := 76

/-- Cuts a text into lines of a width; only the last one may be shorter. -/
def linesOfWidth (width : Nat) (t : Text) : List Text :=
  if h : t = [] ∨ width = 0 then []
  else
    have : t.length ≠ 0 := fun hl => h (.inl (List.length_eq_zero_iff.1 hl))
    t.take width :: linesOfWidth width (t.drop width)
termination_by t.length
decreasing_by
  simp only [List.length_drop]
  omega

/-- Bytes in base 64, in lines. -/
def base64Lines (bytes : Bytes) : Text :=
  (linesOfWidth base64Width (Base64.encode bytes)).flatMap (· ++ crlf)

/-- A part of a letter, without the boundary in front. -/
def Enclosure.render (e : Enclosure) : Text :=
  writtenLine "Content-Type" e.type ++
    writtenLine "Content-Disposition" e.disposition ++
    writtenLine "Content-Transfer-Encoding" "base64" ++ crlf ++ base64Lines e.content

/-- The letter that passes a message on. -/
structure Copy where
  /-- Who passes it on. -/
  sender : Mailbox
  /-- To whom. -/
  destinations : List Mailbox
  /-- When. -/
  time : Time
  /-- The subject of the message. -/
  subject : Text
  /-- What parts the parts. -/
  boundary : Text
  /-- The parts. -/
  enclosures : List Enclosure

namespace Copy

/-- The header block of a letter. -/
def header (c : Copy) : Text :=
  writtenLine "Date" (Date.render c.time) ++
    writtenLine "From" c.sender.render ++
    writtenLine "To" (Mailbox.renderList c.destinations) ++
    writtenLine "X-Forwarded-To" (Mailbox.renderList c.destinations) ++
    writtenLine "X-Forwarded-For" c.sender.render ++
    writtenLine "Subject" (encodedValue ("Fwd: " ++ c.subject)) ++
    writtenLine "MIME-Version" "1.0" ++
    writtenLine "Content-Type" ("multipart/mixed; boundary=\"" ++ c.boundary ++ "\"")

/-- The letter as it is sent. -/
def render (c : Copy) : Text :=
  c.header ++ crlf ++
    c.enclosures.flatMap (fun e => ("--" : Text) ++ c.boundary ++ crlf ++ e.render) ++
    "--" ++ c.boundary ++ "--" ++ crlf

/-- The result of reading a message into parts. -/
def ofParts : Except HeaderFault Part → Except Error Part
  | .ok p => .ok p
  | .error f => .error (.parse f.message)

/-- The letter that passes on the message at hand.  The suggestions are for its boundary. -/
def ofMessage (sender : Mailbox) (destinations : List Mailbox) (time : Time)
    (suggestions : List Text) : Reading Copy := do
  let raw ← Message.raw
  let part ← Reading.ofExcept (ofParts (Part.read raw))
  let citation ← Citation.ofMessage
  let enclosures ← Reading.ofExcept (Enclosure.ofLeaves citation ⟨false, false⟩ part.leaves)
  return { sender, destinations, time, subject := citation.subject,
           boundary := Boundary.pick suggestions raw, enclosures }

end Copy

end Mailroom
