import Mailroom.Text.Blank

/-!
# Mailboxes and address lists

An address field holds a list of mailboxes, bare (`a@b`), in angle brackets, with a plain or a
quoted name before the brackets, or gathered in a group (`team: a@b, c@d;`).  `Mailbox.parseList`
reads the list character by character, with `Mailbox.Stage` telling what the reader is inside of,
and gives the members of groups like all others.

* `Mailbox.render` writes one mailbox, `Mailbox.renderList` a list.
-/

namespace Mailroom

/-- A mailbox: an e-mail address, perhaps with a name. -/
structure Mailbox where
  /-- The name in front of the address. -/
  name : Option Text
  /-- The e-mail address. -/
  email : Text
  deriving DecidableEq, Repr

namespace Mailbox

/-- What follows the last `@` of the address; empty if there is none. -/
def domain (m : Mailbox) : Text :=
  match Text.cutLast '@' m.email with
  | some (_, d) => d
  | none => []

/-- A mailbox as it stands in a header field. -/
def render (m : Mailbox) : Text :=
  match m.name with
  | some (c :: name) => ['"'] ++ (c :: name) ++ "\" <" ++ m.email ++ ['>']
  | _ => m.email

/-- A list of mailboxes as it stands in a header field. -/
def renderList (ms : List Mailbox) : Text := Text.join ", " (ms.map render)

/-! ## Reading a list -/

/-- Why a text is no address list. -/
inductive ListFault where
  /-- A semicolon ends a group that was not opened. -/
  | strayGroupEnd
  /-- A group is opened inside a group. -/
  | nestedGroup
  /-- A group is not closed. -/
  | openGroup
  /-- An address has no `@`. -/
  | noAtSign
  /-- Something follows a bracketed address that may not. -/
  | afterBracket
  /-- The text ends inside a name, an address or a comment. -/
  | cutShort
  deriving DecidableEq, Repr

/-- The wording of a fault. -/
def ListFault.message : ListFault → Text
  | .strayGroupEnd => "Unexpected group terminator found in initial list"
  | .nestedGroup => "Found unexpected nested group"
  | .openGroup => "Found unterminated group address"
  | .noAtSign => "Invalid address found: must contain a '@' symbol"
  | .afterBracket => "Unexpected char found after bracketed address"
  | .cutShort => "Address string unexpectedly terminated"

/-- What the reader of a list is inside of. -/
inductive Stage where
  /-- Before a mailbox. -/
  | between
  /-- Directly after the colon of a group. -/
  | groupOpened
  /-- Inside a quoted name. -/
  | quotedName (name : Text)
  /-- After a backslash in a quoted name. -/
  | escaped (name : Text)
  /-- After the closing quote of a name. -/
  | afterName (name : Text)
  /-- Inside angle brackets. -/
  | bracketed (name : Option Text) (email : Text)
  /-- After the closing bracket. -/
  | afterBracket
  /-- Inside a text that is a bare address, or a name without quotes. -/
  | bare (soFar : Text)
  /-- Inside a comment that follows a bracket, or stands in a bare address. -/
  | comment (bare : Option Text)
  deriving DecidableEq, Repr

/-- What the reader of a list remembers. -/
structure Reader where
  /-- What it is inside of. -/
  stage : Stage
  /-- The mailboxes read so far. -/
  read : List Mailbox
  /-- The blanks after the closing quotes of names that no later text of a name has taken up. -/
  blanks : Text
  /-- Inside a group, the blanks that were remembered before it. -/
  group : Option Text
  deriving DecidableEq, Repr

namespace Reader

/-- The reader at the beginning of a list. -/
def start : Reader := ⟨.between, [], [], none⟩

/-- Adds a mailbox, which must have an `@` in its address. -/
def add (r : Reader) (name : Option Text) (email : Text) (next : Stage) :
    Except ListFault Reader :=
  if email.contains '@' then .ok { r with stage := next, read := r.read ++ [⟨name, email⟩] }
  else .error .noAtSign

/-- Opens a group. -/
def openGroup (r : Reader) : Except ListFault Reader :=
  match r.group with
  | some _ => .error .nestedGroup
  | none => .ok { r with stage := .groupOpened, blanks := [], group := some r.blanks }

/-- Goes on after a semicolon: it closes a group, and outside of one it parts two mailboxes. -/
def closeGroup (r : Reader) : Reader :=
  match r.group with
  | some blanks => { r with stage := .between, blanks := blanks, group := none }
  | none => { r with stage := .between }

/-- Reads a character before a mailbox. -/
def begin (r : Reader) (c : Char) : Except ListFault Reader :=
  if isBlank c then .ok { r with stage := .between }
  else if c = '"' then .ok { r with stage := .quotedName [] }
  else if c = '<' then .ok { r with stage := .bracketed none [] }
  else if c = ';' then if r.group.isSome then .ok r.closeGroup else .error .strayGroupEnd
  else .ok { r with stage := .bare [c] }

/-- Reads one character. -/
def step (r : Reader) (c : Char) : Except ListFault Reader :=
  match r.stage with
  | .between => r.begin c
  | .groupOpened => r.begin c
  | .quotedName name =>
    if c = '\\' then .ok { r with stage := .escaped name }
    else if c = '"' then .ok { r with stage := .afterName name }
    else .ok { r with stage := .quotedName (name ++ [c]) }
  | .escaped name => .ok { r with stage := .quotedName (name ++ [c]) }
  | .afterName name =>
    if isBlank c then .ok { r with blanks := r.blanks ++ [c] }
    else if c = '<' then .ok { r with stage := .bracketed (some name) [] }
    else if c = ':' then r.openGroup
    else if c = '"' then .ok { r with stage := .quotedName (name ++ r.blanks), blanks := [] }
    else .ok { r with stage := .afterName (name ++ r.blanks ++ [c]), blanks := [] }
  | .bracketed name email =>
    if c = '>' then r.add name email .afterBracket
    else .ok { r with stage := .bracketed name (email ++ [c]) }
  | .afterBracket =>
    if isBlank c then .ok r
    else if c = ',' then .ok { r with stage := .between }
    else if c = ';' then .ok r.closeGroup
    else if c = '(' then .ok { r with stage := .comment none }
    else .error .afterBracket
  | .bare soFar =>
    if c = '<' then .ok { r with stage := .bracketed (some (Text.trimRight soFar)) [] }
    else if c = ',' then r.add none (Text.trimRight soFar) .between
    else if c = ';' then (r.add none (Text.trimRight soFar) .between).map closeGroup
    else if c = ':' then r.openGroup
    else if c = '(' then .ok { r with stage := .comment (some soFar) }
    else .ok { r with stage := .bare (soFar ++ [c]) }
  | .comment bare =>
    if c = ')' then
      match bare with
      | some soFar => .ok { r with stage := .bare soFar }
      | none => .ok { r with stage := .afterBracket }
    else .ok r

/-- The mailboxes that were read when the text ends. -/
def finish (r : Reader) : Except ListFault (List Mailbox) :=
  match r.group, r.stage with
  | some _, .groupOpened => .ok r.read
  | some _, _ => .error .openGroup
  | none, .bare soFar => (r.add none (Text.trimRight soFar) .between).map Reader.read
  | none, .between => .ok r.read
  | none, .groupOpened => .ok r.read
  | none, .afterBracket => .ok r.read
  | none, _ => .error .cutShort

end Reader

/-- Reads an address list. -/
def parseList (t : Text) : Except ListFault (List Mailbox) := do
  let r ← t.foldlM Reader.step .start
  r.finish

end Mailbox

end Mailroom
