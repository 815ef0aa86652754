import Mailroom.Text

/-!
# UTF-8

`Utf8.encode` writes text as bytes.  Reading goes byte by byte through `Utf8.State` and yields one
unit per character, or an empty unit for a longest run of bytes that begins no character.

* `Utf8.decode?` accepts well-formed bytes only.
* `Utf8.decodeLossy` puts U+FFFD for each ill-formed run.
-/

namespace Mailroom
namespace Utf8

/-- The bytes of a text. -/
def encode (t : Text) : Bytes := t.flatMap String.utf8EncodeChar

/-- Where a reader stands: between characters, or inside one that still needs `more + 1` bytes,
the next of them between `low` and `high`. -/
inductive State where
  /-- Between characters. -/
  | start
  /-- Inside a character; `acc` holds the bits read so far. -/
  | inside (more : Nat) (low high : UInt8) (acc : Nat)
  deriving DecidableEq, Repr

/-- Reads the first byte of a character: what is known at once, and where the reader stands. -/
def first (b : UInt8) : List (Option Char) × State :=
  let n := b.toNat
  if b < 0x80 then ([some (Char.ofNat n)], .start)
  else if 0xC2 ≤ b ∧ b ≤ 0xDF then ([], .inside 0 0x80 0xBF (n - 0xC0))
  else if b = 0xE0 then ([], .inside 1 0xA0 0xBF 0)
  else if b = 0xED then ([], .inside 1 0x80 0x9F (n - 0xE0))
  else if 0xE1 ≤ b ∧ b ≤ 0xEF then ([], .inside 1 0x80 0xBF (n - 0xE0))
  else if b = 0xF0 then ([], .inside 2 0x90 0xBF 0)
  else if 0xF1 ≤ b ∧ b ≤ 0xF3 then ([], .inside 2 0x80 0xBF (n - 0xF0))
  else if b = 0xF4 then ([], .inside 2 0x80 0x8F (n - 0xF0))
  else ([none], .start)

/-- Reads one byte. -/
def step : State → UInt8 → List (Option Char) × State
  | .start, b => first b
  | .inside more low high acc, b =>
    if low ≤ b ∧ b ≤ high then
      let acc := acc * 64 + (b.toNat - 0x80)
      match more with
      | 0 => ([some (Char.ofNat acc)], .start)
      | m + 1 => ([], .inside m 0x80 0xBF acc)
    else
      let r := first b
      (none :: r.1, r.2)

/-- The units of a byte sequence that is read from a given state. -/
def unitsFrom : State → Bytes → List (Option Char)
  | .start, [] => []
  | .inside .., [] => [none]
  | s, b :: bs => let r := step s b; r.1 ++ unitsFrom r.2 bs

/-- The units of a byte sequence. -/
def units (bs : Bytes) : List (Option Char) := unitsFrom .start bs

/-- The text of well-formed bytes. -/
def decode? (bs : Bytes) : Option Text := (units bs).mapM id

/-- The text of any bytes, with U+FFFD for each ill-formed run. -/
def decodeLossy (bs : Bytes) : Text := (units bs).map (fun u => u.getD '\uFFFD')

end Utf8
end Mailroom
