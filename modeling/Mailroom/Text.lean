/-!
# Text and bytes

Everything the mailroom reads is either text, a list of characters, or a file's content, a list
of bytes.  Both are plain lists, so that cutting, joining and searching are list functions.

* `Text.pieces` cuts at every separator and `Text.words` keeps the pieces that are not empty.
* `Text.cut` and `Text.cutLast` cut at the first and at the last occurrence of one character.
* `occurs` looks for one list inside another; it serves text and bytes alike.
-/

namespace Mailroom

/-- A piece of text. -/
abbrev Text := List Char

/-- The content of a file. -/
abbrev Bytes := List UInt8

/-- A string literal stands for its characters. -/
instance : Coe String Text := ⟨String.toList⟩

/-! ## Searching in lists -/

section Search

variable {α : Type} [BEq α]

/-- Whether `needle` occurs in a list as a run of neighbours. -/
def occurs (needle : List α) : List α → Bool
  | [] => needle.isEmpty
  | x :: xs => needle.isPrefixOf (x :: xs) || occurs needle xs

/-- How many elements stand before the first occurrence of `needle`. -/
def offsetOf? (needle : List α) : List α → Option Nat
  | [] => if needle.isEmpty then some 0 else none
  | x :: xs =>
    if needle.isPrefixOf (x :: xs) then some 0 else (offsetOf? needle xs).map (· + 1)

end Search

namespace Text

/-! ## Order -/

/-- Text is ordered by code point, character by character. -/
def le (a b : Text) : Bool := !decide (b < a)

/-- Sorts a list of texts by code point. -/
def sort (ts : List Text) : List Text := ts.mergeSort le

/-! ## Cutting and joining -/

/-- The pieces of a text between the characters that satisfy `sep`, empty pieces included. -/
def pieces (sep : Char → Bool) : Text → List Text
  | [] => [[]]
  | c :: cs =>
    if sep c then [] :: pieces sep cs
    else match pieces sep cs with
      | p :: ps => (c :: p) :: ps
      | [] => [[c]]

/-- The pieces that are not empty. -/
def words (sep : Char → Bool) (t : Text) : List Text :=
  (pieces sep t).filter (fun w => !w.isEmpty)

/-- Cuts at the first occurrence of a character, which belongs to neither side. -/
def cut (c : Char) : Text → Option (Text × Text)
  | [] => none
  | x :: xs => if x = c then some ([], xs) else (cut c xs).map (fun p => (x :: p.1, p.2))

/-- Cuts at the last occurrence of a character, which belongs to neither side. -/
def cutLast (c : Char) (t : Text) : Option (Text × Text) :=
  (cut c t.reverse).map (fun p => (p.2.reverse, p.1.reverse))

/-- Removes one final carriage return. -/
def dropFinalReturn (t : Text) : Text :=
  match t.reverse with
  | '\r' :: r => r.reverse
  | _ => t

/-- The lines of a text: each ends at a line feed, with or without a carriage return before it,
and a line feed at the very end opens no further line. -/
def lines (t : Text) : List Text :=
  let ps := pieces (· == '\n') t
  match ps.getLast? with
  | some [] => ps.dropLast.map dropFinalReturn
  | some last => ps.dropLast.map dropFinalReturn ++ [last]
  | none => []

/-- Joins texts with `sep` between neighbours. -/
def join (sep : Text) (ts : List Text) : Text := sep.intercalate ts

/-- Puts `b` for every `a`. -/
def replace (a b : Char) (t : Text) : Text := t.map (fun c => if c = a then b else c)

/-- Drops every `a`. -/
def without (a : Char) (t : Text) : Text := t.filter (· != a)

/-- Drops from the end what satisfies `p`. -/
def dropEndWhile (p : Char → Bool) (t : Text) : Text := (t.reverse.dropWhile p).reverse

/-! ## ASCII -/

/-- Whether every character is an ASCII one. -/
def isAscii (t : Text) : Bool := t.all (fun c => decide (c.toNat < 128))

/-- ASCII capitals become small letters, all else stays. -/
def asciiLower (t : Text) : Text := t.map Char.toLower

/-- Equality of names in which the case of ASCII letters does not count. -/
def sameName (a b : Text) : Bool := asciiLower a == asciiLower b

/-! ## Numbers -/

/-- The decimal digits of a number. -/
def ofNat (n : Nat) : Text := Nat.toDigits 10 n

/-- The decimal digits of a number, with zeros in front up to a width. -/
def ofNatPadded (width n : Nat) : Text :=
  let ds := ofNat n
  List.replicate (width - ds.length) '0' ++ ds

/-- The number that ASCII digits denote, in a base up to sixteen; `none` if the text is empty or
holds anything else. -/
def toNat? (base : Nat) (t : Text) : Option Nat :=
  let value (c : Char) : Option Nat :=
    let n := c.toNat
    let d := if '0' ≤ c ∧ c ≤ '9' then n - 48
      else if 'a' ≤ c ∧ c ≤ 'f' then n - 87
      else if 'A' ≤ c ∧ c ≤ 'F' then n - 55
      else 16
    if d < base then some d else none
  if t.isEmpty then none
  else t.foldl (fun acc c => do let a ← acc; let d ← value c; pure (a * base + d)) (some 0)

/-- Pads on the left with blanks up to a width. -/
def padLeft (width : Nat) (t : Text) : Text := List.replicate (width - t.length) ' ' ++ t

end Text

end Mailroom
