import Mailroom.Text

/-!
# Data for other programs

What a command did can be shown as data for other programs: numbers, texts between quotes, lists
and named fields, each item on a line of its own, two blanks deeper than what it belongs to.
-/

namespace Mailroom

/-- Data for other programs. -/
inductive Datum where
  /-- A number. -/
  | number (n : Nat)
  /-- A text. -/
  | text (t : Text)
  /-- A list. -/
  | list (items : List Datum)
  /-- Values with names. -/
  | fields (entries : List (Text × Datum))

namespace Datum

/-- One character as it is written between quotes. -/
def quotedChar (c : Char) : Text :=
  match c with
  | '"' => "\\\""
  | '\\' => "\\\\"
  | '\n' => "\\n"
  | '\r' => "\\r"
  | '\t' => "\\t"
  | '\x08' => "\\b"
  | '\x0c' => "\\f"
  | c =>
    if c.toNat < 32 then "\\u00" ++ [Nat.digitChar (c.toNat / 16), Nat.digitChar (c.toNat % 16)]
    else [c]

/-- A text between quotes. -/
def quoted (t : Text) : Text := ['"'] ++ t.flatMap quotedChar ++ ['"']

/-- The beginning of a line at a depth. -/
def indent (depth : Nat) : Text := '\n' :: List.replicate (2 * depth) ' '

/-- Items between brackets at a depth. -/
def bracketed (open_ close : Char) (depth : Nat) (items : List Text) : Text :=
  if items.isEmpty then [open_, close]
  else [open_] ++ Text.join "," (items.map (indent (depth + 1) ++ ·)) ++ indent depth ++ [close]

mutual

/-- Data as text at a depth. -/
def renderAt (depth : Nat) : Datum → Text
  | number n => Text.ofNat n
  | text t => quoted t
  | list items => bracketed '[' ']' depth (renderItems (depth + 1) items)
  | fields entries => bracketed '\x7b' '\x7d' depth (renderEntries (depth + 1) entries)

/-- The items of a list as texts. -/
def renderItems (depth : Nat) : List Datum → List Text
  | [] => []
  | d :: ds => renderAt depth d :: renderItems depth ds

/-- Values with their names as texts. -/
def renderEntries (depth : Nat) : List (Text × Datum) → List Text
  | [] => []
  | (name, d) :: rest => (quoted name ++ ": " ++ renderAt depth d) :: renderEntries depth rest

end

/-- Data as text. -/
def render (d : Datum) : Text := renderAt 0 d

end Datum

end Mailroom
