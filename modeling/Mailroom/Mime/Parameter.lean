import Mailroom.Coding.Charset
import Mailroom.Text.Blank
import Mailroom.Text.LowerCase
import Mailroom.Text.Sorted

/-!
# Values with parameters

A field such as `Content-Type` holds a value and parameters: `text/plain; charset=utf-8`.

* `Parameters.parse` reads both.  A parameter given twice has its last value.
* A name that ends in a star has a percent-encoded value, which begins with a character set and a
  language between single quotes.  Names that end in `*0`, `*1` and so on hold the pieces of one
  value.
-/

namespace Mailroom

/-- A value with parameters. -/
structure Parameters where
  /-- The value. -/
  value : Text
  /-- The parameters. -/
  params : Dictionary Text

namespace Parameters

/-- Removes one pair of double quotes around a text. -/
def unquote (t : Text) : Text :=
  match t with
  | '"' :: rest =>
    match rest.getLast? with
    | some '"' => rest.dropLast
    | _ => t
  | _ => t

/-- Reads one parameter. -/
def entry? (t : Text) : Option (Text × Text) :=
  (Text.cut '=' t).map (fun p => (Text.lower (Text.trim p.1), unquote (Text.trim p.2)))

/-- Removes a final text. -/
def dropEnd? (last t : Text) : Option Text :=
  if last.isSuffixOf t then some (t.take (t.length - last.length)) else none

/-! ## Percent-encoded values -/

/-- The value of a hexadecimal digit. -/
def hex? (b : UInt8) : Option Nat := Text.toNat? 16 [Char.ofNat b.toNat]

/-- Reads `%` and two hexadecimal digits as one byte, wherever they stand. -/
def percentDecode : Bytes → Bytes
  | 37 :: x :: y :: rest =>
    match hex? x with
    | none => 37 :: percentDecode (x :: y :: rest)
    | some a =>
      match hex? y with
      | none => 37 :: x :: percentDecode (y :: rest)
      | some b => UInt8.ofNat (a * 16 + b) :: percentDecode rest
  | b :: rest => b :: percentDecode rest
  | [] => []
termination_by bs => bs.length

/-- What stands before the first single quote: the label of a character set. -/
def charsetLabel (value : Text) : Text := value.takeWhile (· != '\'')

/-- What stands after the second single quote. -/
def afterLanguage (value : Text) : Text :=
  match (Text.cut '\'' value).bind (fun p => Text.cut '\'' p.2) with
  | some (_, rest) => rest
  | none => []

/-- For every parameter to be decoded: its name without the final star, the label of its
character set, and whether its value begins with that label.  The pieces of one value take the
label of the first piece. -/
def encodings (params : Dictionary Text) (names : List Text) : Dictionary (Text × Bool) :=
  names.foldl (fun found name =>
    let label := charsetLabel ((params.find? (name ++ "*")).getD [])
    match dropEnd? "*0" name with
    | some base =>
      (names.filter (fun n => (base ++ "*").isPrefixOf n)).foldl
        (fun found n => found.insert n (label, n == name)) found
    | none => if (found.find? name).isSome then found else found.insert name (label, true))
    .empty

/-- Decodes the percent-encoded parameters that have no plain one beside them. -/
def decodeStarred (params : Dictionary Text) : Dictionary Text :=
  let names := (params.keys.filterMap (dropEnd? "*")).filter
    (fun n => (params.find? n).isNone)
  (encodings params names).entries.foldl (fun params e =>
    let (name, label, begins) := e
    match Charset.ofLabel? label with
    | none => params
    | some charset =>
      let value := (params.find? (name ++ "*")).getD []
      let letters := if begins then afterLanguage value else value
      (params.erase (name ++ "*")).insert name
        (charset.decode (percentDecode (Utf8.encode letters))))
    params

/-! ## Values in pieces -/

/-- Takes the pieces of a value out of the parameters, from a number on.  There are at most
`bound` of them. -/
def takePieces (base : Text) : Nat → Nat → Dictionary Text → Text × Dictionary Text
  | 0, _, params => ([], params)
  | bound + 1, index, params =>
    let name := base ++ "*" ++ Text.ofNat index
    match params.find? name with
    | none => ([], params)
    | some piece =>
      let r := takePieces base bound (index + 1) (params.erase name)
      (piece ++ r.1, r.2)

/-- Joins the values that come in pieces and have no plain one beside them. -/
def joinPieces (params : Dictionary Text) : Dictionary Text :=
  let names := (params.keys.filterMap (dropEnd? "*0")).filter
    (fun n => (params.find? n).isNone)
  names.foldl (fun params name =>
    let r := takePieces name params.entries.length 0 params
    r.2.insert name r.1) params

/-- Reads a value and its parameters. -/
def parse (t : Text) : Parameters :=
  match Text.pieces (· == ';') t with
  | [] => ⟨[], .empty⟩
  | value :: rest =>
    ⟨Text.trim value, joinPieces (decodeStarred (.ofList (rest.filterMap entry?)))⟩

end Parameters

end Mailroom
