import Mailroom.Text.Blank

/-!
# Quoted-printable

A byte is written as itself or as `=` and two hexadecimal digits, and `=` at the end of a line
joins it to the next one.  Reading is lenient: bytes that may not occur are dropped, and a `=`
that begins neither is kept with the two characters after it.
-/

namespace Mailroom
namespace QuotedPrintable

/-- Whether a byte may occur: tab, line feed, carriage return and what ASCII prints. -/
def mayOccur (b : UInt8) : Bool := b == 9 || b == 10 || b == 13 || (32 ≤ b && b ≤ 126)

/-- The value of a hexadecimal digit. -/
def hex? (c : Char) : Option Nat := Text.toNat? 16 [c]

/-- The byte of an ASCII character. -/
def byte (c : Char) : UInt8 := UInt8.ofNat c.toNat

/-- The bytes of one line, and whether it is joined to the next one. -/
def line : Text → Bytes × Bool
  | [] => ([], false)
  | ['='] => ([], true)
  | ['=', x] => ([byte '=', byte x], false)
  | '=' :: x :: y :: rest =>
    let r := line rest
    match hex? x, hex? y with
    | some a, some b => (UInt8.ofNat (a * 16 + b) :: r.1, r.2)
    | _, _ => (byte '=' :: byte x :: byte y :: r.1, r.2)
  | c :: rest => let r := line rest; (byte c :: r.1, r.2)

/-- The bytes of some lines; `ended` tells whether a line break follows the last one. -/
def ofLines (ended : Bool) : List Text → Bytes
  | [] => []
  | [l] =>
    let r := line (Text.trimRight l)
    r.1 ++ if ended && !r.2 then [13, 10] else []
  | l :: ls =>
    let r := line (Text.trimRight l)
    r.1 ++ (if r.2 then [] else [13, 10]) ++ ofLines ended ls

/-- The bytes that a text stands for.  Blanks at the end of a line do not count. -/
def decode (bs : Bytes) : Bytes :=
  let t : Text := (bs.filter mayOccur).map (fun b => Char.ofNat b.toNat)
  ofLines (t.getLast? == some '\n') (Text.lines t)

end QuotedPrintable
end Mailroom
