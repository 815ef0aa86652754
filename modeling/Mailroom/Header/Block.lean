import Mailroom.Text

/-!
# The header block of a message

A message begins with fields, a name and a value parted by a colon.  A value runs over the lines
that begin with a blank or a tab.  The block ends at an empty line; what follows is the body.

* `readFields` gives the fields as they are in the file, and the body.
-/

namespace Mailroom

/-- A field as it stands in the file. -/
structure RawField where
  /-- What stands before the colon, or the whole line if there is none. -/
  key : Bytes
  /-- What stands after the colon and the blanks that follow it, up to the last byte that belongs
  to no line break. -/
  value : Bytes
  deriving DecidableEq, Repr

/-- Why a header block cannot be read. -/
inductive HeaderFault where
  /-- A carriage return stands at the beginning of a line, and no line feed after it. -/
  | loneReturn
  /-- A field begins with a blank. -/
  | leadingBlank
  deriving DecidableEq, Repr

/-- The wording of a fault. -/
def HeaderFault.message : HeaderFault → Text
  | .loneReturn => "Headers were followed by an unexpected lone CR character!"
  | .leadingBlank =>
    "Header cannot start with a space; it is likely an overhanging line from a previous header"

/-- Whether a byte sequence begins with a blank or a tab. -/
def beginsFolded : Bytes → Bool
  | b :: _ => b == 32 || b == 9
  | [] => false

/-- The lines of a value, its line breaks included, and what follows. -/
def spanValue : Bytes → Bytes × Bytes
  | [] => ([], [])
  | b :: bs =>
    if b == 10 && !beginsFolded bs then ([b], bs)
    else let r := spanValue bs; (b :: r.1, r.2)

/-- Removes line breaks at the end. -/
def dropLineBreaks (bs : Bytes) : Bytes :=
  (bs.reverse.dropWhile (fun b => b == 13 || b == 10)).reverse

/-- Whether a byte ends the name of a field. -/
def endsKey (b : UInt8) : Bool := b == 58 || b == 10

/-- The first field of a byte sequence, and what follows it. -/
def readField (bs : Bytes) : RawField × Bytes :=
  let key := bs.takeWhile (fun b => !endsKey b)
  match bs.dropWhile (fun b => !endsKey b) with
  | [] => (⟨key, []⟩, [])
  | b :: rest =>
    if b == 58 then
      let r := spanValue (rest.dropWhile (· == 32))
      (⟨key, dropLineBreaks r.1⟩, r.2)
    else (⟨key, []⟩, rest)

theorem length_dropWhile_le {α : Type} (p : α → Bool) (l : List α) :
    (l.dropWhile p).length ≤ l.length := (List.dropWhile_suffix p).length_le

theorem length_spanValue_le (bs : Bytes) : (spanValue bs).2.length ≤ bs.length := by
  induction bs with
  | nil => simp [spanValue]
  | cons b bs ih =>
    simp only [spanValue]
    split
    · simp
    · simp; omega

/-- A field takes at least one byte. -/
theorem length_readField_lt (b : UInt8) (bs : Bytes) :
    (readField (b :: bs)).2.length < (b :: bs).length := by
  have h := length_dropWhile_le (fun b => !endsKey b) (b :: bs)
  unfold readField
  split
  · simp
  · rename_i c rest heq
    rw [heq] at h
    simp only [List.length_cons] at h ⊢
    split
    · have h1 := length_spanValue_le (rest.dropWhile (· == 32))
      have h2 := length_dropWhile_le (fun x : UInt8 => x == 32) rest
      simp only
      omega
    · simp only
      omega

/-- The fields of a message and its body. -/
def readFields : Bytes → Except HeaderFault (List RawField × Bytes)
  | [] => .ok ([], [])
  | b :: bs =>
    if b = 10 then .ok ([], bs)
    else if b = 13 then
      match bs with
      | 10 :: rest => .ok ([], rest)
      | _ => .error .loneReturn
    else if b = 32 then .error .leadingBlank
    else
      have := length_readField_lt b bs
      match readFields (readField (b :: bs)).2 with
      | .ok r => .ok ((readField (b :: bs)).1 :: r.1, r.2)
      | .error e => .error e
termination_by bs => bs.length
decreasing_by assumption

end Mailroom
