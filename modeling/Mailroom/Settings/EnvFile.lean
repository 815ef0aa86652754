import Mailroom.Text.Blank
import Mailroom.Text.Sorted
import Mailroom.Text.Utf8

/-!
# A file of variables

A file of variables gives values to variables that have none yet.  A line reads `NAME=value`,
perhaps after the word `export`; `#` begins a comment.

* Between single quotes everything stands for itself.  Elsewhere a backslash keeps the next
  character, and `$NAME` stands for the value of a variable.
* A value between quotes may go on over several lines.
* `EnvFile.load` reads up to the first line that is not of this form.
-/

namespace Mailroom

/-- The variables of the environment. -/
abbrev Variables := Dictionary Text

namespace EnvFile

/-! ## Lines -/

/-- What the end of a line depends on. -/
inductive LineState where
  /-- Nothing is open. -/
  | closed
  /-- A blank was the last character. -/
  | gap
  /-- After a backslash. -/
  | escape
  /-- Between single quotes. -/
  | single
  /-- Between single quotes, after a backslash. -/
  | singleEscape
  /-- Between double quotes. -/
  | double
  /-- Between double quotes, after a backslash. -/
  | doubleEscape
  deriving DecidableEq, Repr

/-- Where no quotes are open a quote opens some. -/
def LineState.opening (c : Char) : LineState :=
  if c = '\\' then .escape else if c = '"' then .double else if c = '\'' then .single else .closed

/-- The state after a character. -/
def LineState.step (s : LineState) (c : Char) : LineState :=
  match s with
  | .closed => if isBlank c && c != '\n' && c != '\r' then .gap else .opening c
  | .gap => .opening c
  | .escape => .closed
  | .single => if c = '\\' then .singleEscape else if c = '\'' then .closed else .single
  | .singleEscape => .single
  | .double => if c = '\\' then .doubleEscape else if c = '"' then .closed else .double
  | .doubleEscape => .double

/-- What counts of a line: up to a comment, which begins at a `#` after a blank.  The state is
`none` if there is a comment. -/
def scan (s : LineState) : Text → Text × Option LineState
  | [] => ([], some s)
  | c :: cs =>
    if s = .gap ∧ c = '#' then ([], none)
    else
      let (kept, last) := scan (s.step c) cs
      (c :: kept, last)

/-- The bytes of a file in lines, each with its line feed. -/
def byteLines : Bytes → List Bytes
  | [] => []
  | b :: bs =>
    if b == 10 then [b] :: byteLines bs
    else match byteLines bs with
      | l :: ls => (b :: l) :: ls
      | [] => [[b]]

/-- A text without its line end. -/
def dropLineEnd (t : Text) : Text :=
  match t.reverse with
  | '\n' :: r => Text.dropFinalReturn r.reverse
  | _ => t

/-- Joins lines as long as something is open.  `held` is what was joined so far, in state `s`.
The end is `none` if something stays open, or if a line is not UTF-8. -/
def joinLines (s : LineState) (held : Text) : List Bytes → List (Option Text)
  | [] => if s = .closed then [] else [none]
  | l :: ls =>
    match Utf8.decode? l with
    | none => [none]
    | some t =>
      let all := held ++ t
      if (Text.trimLeft all).head? = some '#' then some [] :: joinLines .closed [] ls
      else match scan s t with
        | (kept, none) => some (held ++ kept) :: joinLines .closed [] ls
        | (_, some .closed) => some (dropLineEnd all) :: joinLines .closed [] ls
        | (_, some s) => joinLines s all ls

/-! ## Values -/

/-- What the meaning of a character in a value depends on; `inside` tells whether double quotes
are open. -/
inductive ValueState where
  /-- No quotes are open. -/
  | plain
  /-- Single quotes are open. -/
  | single
  /-- Double quotes are open. -/
  | double
  /-- After a backslash. -/
  | escape (inside : Bool)
  /-- In a name after `$`. -/
  | name (inside : Bool) (name : Text)
  /-- In a name after `$` and a brace. -/
  | braced (inside : Bool) (name : Text)
  /-- After the value. -/
  | after
  /-- In a comment. -/
  | comment
  deriving DecidableEq, Repr

/-- Where a value goes on after something that stood in it. -/
def ValueState.resume (inside : Bool) : ValueState := if inside then .double else .plain

/-- Whether a character belongs to a name after `$`: an ASCII letter or digit, or any character
beyond ASCII but a blank. -/
def isNameChar (c : Char) : Bool := c.isAlphanum || (128 ≤ c.toNat && !isBlank c)

/-- The value of a variable, empty if there is none. -/
def lookUp (vars : Variables) (name : Text) : Text := (vars.find? name).getD []

/-- The state and the value after a character. -/
def ValueState.step (vars : Variables) (s : ValueState) (value : Text) (c : Char) :
    Option (ValueState × Text) :=
  match s with
  | .plain =>
    if c = '$' then some (.name false [], value)
    else if c = '\'' then some (.single, value)
    else if c = '"' then some (.double, value)
    else if c = '\\' then some (.escape false, value)
    else if c = ' ' ∨ c = '\t' then some (.after, value)
    else some (.plain, value ++ [c])
  | .single => if c = '\'' then some (.plain, value) else some (.single, value ++ [c])
  | .double =>
    if c = '$' then some (.name true [], value)
    else if c = '"' then some (.plain, value)
    else if c = '\\' then some (.escape true, value)
    else some (.double, value ++ [c])
  | .escape inside =>
    if c = 'n' then some (.resume inside, value ++ ['\n'])
    else if c = '\\' ∨ c = '\'' ∨ c = '"' ∨ c = '$' ∨ c = ' ' then
      some (.resume inside, value ++ [c])
    else none
  | .name inside n =>
    if isNameChar c then some (.name inside (n ++ [c]), value)
    else if c = '\x7b' ∧ n = [] then some (.braced inside [], value)
    else if c = '$' then some (.name inside [], value ++ lookUp vars n)
    else some (.resume inside, value ++ lookUp vars n ++ [c])
  | .braced inside n =>
    if c = '\x7d' then some (.resume inside, value ++ lookUp vars n)
    else some (.braced inside (n ++ [c]), value)
  | .after =>
    if c = ' ' ∨ c = '\t' then some (.after, value)
    else if c = '#' then some (.comment, value)
    else none
  | .comment => some (.comment, value)

/-- The value that ends in a state; `none` if something is open. -/
def ValueState.finish (vars : Variables) (s : ValueState) (value : Text) : Option Text :=
  match s with
  | .plain | .escape false | .after | .comment => some value
  | .name false n => some (value ++ lookUp vars n)
  | _ => none

/-- Reads a value. -/
def readValue (vars : Variables) (t : Text) : Option Text := do
  let (s, value) ← t.foldlM (fun r c => ValueState.step vars r.1 r.2 c) (ValueState.plain, [])
  s.finish vars value

/-! ## Assignments -/

/-- Reads the name of a variable, with the rest of the line after it and after blanks. -/
def readName (t : Text) : Option (Text × Text) :=
  match t with
  | c :: _ =>
    if c.isAlpha || c == '_' then
      let isPart (c : Char) : Bool := c.isAlphanum || c == '_' || c == '.'
      some (t.takeWhile isPart, Text.trimLeft (t.dropWhile isPart))
    else none
  | [] => none

/-- What follows an equals sign. -/
def afterEquals : Text → Option Text
  | '=' :: t => some t
  | _ => none

/-- Reads the name and the text of the value on a line. -/
def readAssignment (line : Text) : Option (Text × Text) := do
  let (name, rest) ← readName line
  match name == "export".toList, afterEquals rest with
  | _, some value => return (name, Text.trimLeft value)
  | false, none => none
  | true, none =>
    let (name, rest) ← readName rest
    return (name, Text.trimLeft (← afterEquals rest))

/-- Does what a line says; `none` if it is of no known form. -/
def obey (vars : Variables) (line : Text) : Option Variables :=
  let line := Text.trim line
  if line = [] ∨ line.head? = some '#' then some vars
  else do
    let (name, t) ← readAssignment line
    let value ← if t = [] ∨ t.head? = some '#' then pure [] else readValue vars t
    return if (vars.find? name).isSome then vars else vars.insert name value

/-- Does what some lines say, up to the first one that is of no known form. -/
def obeyAll (vars : Variables) : List (Option Text) → Variables
  | some line :: rest =>
    match obey vars line with
    | some vars => obeyAll vars rest
    | none => vars
  | _ => vars

/-- The bytes of a file without a byte order mark. -/
def dropMark : Bytes → Bytes
  | 239 :: 187 :: 191 :: bs => bs
  | bs => bs

/-- The variables after a file was read. -/
def load (vars : Variables) (file : Bytes) : Variables :=
  obeyAll vars (joinLines .closed [] (byteLines (dropMark file)))

end EnvFile

end Mailroom
