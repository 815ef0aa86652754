import Mailroom.Yaml.Cursor

/-!
# The four ways to write a text

A text in a YAML document is plain, between single quotes, between double quotes, or a block of
indented lines.  Each reader begins at the first character of the text and gives the text and
the place after it.
-/

namespace Mailroom
namespace Yaml

/-! ## Quoted texts -/

/-- What a backslash and one character stand for. -/
def escaped? : Char → Option Text
  | '0' => some ['\x00']
  | 'a' => some ['\x07']
  | 'b' => some ['\x08']
  | 't' => some ['\t']
  | '\t' => some ['\t']
  | 'n' => some ['\n']
  | 'v' => some ['\x0b']
  | 'f' => some ['\x0c']
  | 'r' => some ['\r']
  | 'e' => some ['\x1b']
  | ' ' => some [' ']
  | '"' => some ['"']
  | '/' => some ['/']
  | '\\' => some ['\\']
  | 'N' => some ['\x85']
  | '_' => some ['\xa0']
  | 'L' => some ['\u2028']
  | 'P' => some ['\u2029']
  | _ => none

/-- How many hexadecimal digits follow a backslash and one character. -/
def escapeDigits? : Char → Option Nat
  | 'x' => some 2
  | 'u' => some 4
  | 'U' => some 8
  | _ => none

/-- Reads an escape after its backslash. -/
def readEscape (c : Cursor) : Except Fault (Text × Cursor) :=
  match c.rest with
  | [] => .error .badEscape
  | x :: rest =>
    match escaped? x with
    | some t => .ok (t, c.skip 1)
    | none =>
      match escapeDigits? x with
      | none => .error .badEscape
      | some n =>
        match Text.toNat? 16 (rest.take n) with
        | some code =>
          if (rest.take n).length = n ∧ code.isValidChar then
            .ok ([Char.ofNat code], c.skip (n + 1))
          else .error .badEscape
        | none => .error .badEscape

/-- Reads the rest of a text between quotes; `acc` is what was read of it.  A gap is read before
every word. -/
def readQuotedFrom (single : Bool) : Nat → Text → Cursor → Except Fault (Text × Cursor)
  | 0, _, _ => .error .openQuote
  | fuel + 1, acc, c =>
    if c.column = 0 && (atMarker '-' c.rest || atMarker '.' c.rest) then .error .openQuote
    else match c.rest with
      | [] => .error .openQuote
      | x :: rest =>
        if single && x == '\'' then
          match rest with
          | '\'' :: _ => readQuotedFrom single fuel (acc ++ ['\'']) (c.skip 2)
          | _ => .ok (acc, c.skip 1)
        else if !single && x == '"' then .ok (acc, c.skip 1)
        else if !single && x == '\\' then
          if atBreak rest then do
            let (gap, c) ← readGap none (fuel + 1) (.breaks [] []) (c.skip 1).skipBreak.2
            readQuotedFrom single fuel (acc ++ gap.text) c
          else do
            let (t, c) ← readEscape (c.skip 1)
            readQuotedFrom single fuel (acc ++ t) c
        else if isSpace x || isBreak x then do
          let (gap, c) ← readGap none (fuel + 1) (.spaces []) c
          readQuotedFrom single fuel (acc ++ gap.text) c
        else readQuotedFrom single fuel (acc ++ [x]) (c.skip 1)

/-- Reads a text between quotes, from its first quote on. -/
def readQuoted (single : Bool) (c : Cursor) : Except Fault (Text × Cursor) :=
  readQuotedFrom single (c.rest.length + 1) [] (c.skip 1)

/-! ## Plain texts -/

/-- The characters that mean something inside brackets and braces. -/
def isFlowIndicator (c : Char) : Bool :=
  c == ',' || c == '[' || c == ']' || c == '\x7b' || c == '\x7d'

/-- Whether a plain text ends before the text that is left. -/
def endsPlain (flow : Bool) : Text → Bool
  | [] => true
  | c :: rest =>
    isSpace c || isBreak c || (c == ':' && atGap rest) || (flow && isFlowIndicator c)

/-- Whether a colon stands directly before a character that may not follow it there. -/
def isBadColon (flow : Bool) : Text → Bool
  | ':' :: c :: _ => flow && (isFlowIndicator c || c == '?')
  | _ => false

/-- Reads one word of a plain text. -/
def readWord (flow : Bool) : Nat → Text → Cursor → Except Fault (Text × Cursor)
  | 0, acc, c => .ok (acc, c)
  | fuel + 1, acc, c =>
    if isBadColon flow c.rest then .error .misplaced
    else if endsPlain flow c.rest then .ok (acc, c)
    else readWord flow fuel (acc ++ c.rest.take 1) (c.skip 1)

/-- Reads words of a plain text, each with the gap before it.  Lines that are indented less than
`indent` do not belong to it.  The result tells, too, whether the place after the text is on a
later line than its last word. -/
def readPlainFrom (flow : Bool) (indent : Nat) : Nat → Text → Gap → Cursor →
    Except Fault (Text × Bool × Cursor)
  | 0, acc, gap, c => .ok (acc, gap.isBreak, c)
  | fuel + 1, acc, gap, c =>
    if c.column = 0 && (atMarker '-' c.rest || atMarker '.' c.rest) then
      .ok (acc, gap.isBreak, c)
    else if c.rest.head? == some '#' then .ok (acc, gap.isBreak, c)
    else do
      let (word, next) ← readWord flow (c.rest.length + 1) [] c
      let acc := if word.isEmpty then acc else acc ++ gap.text ++ word
      let left := if word.isEmpty then gap else .spaces []
      if atSpace next.rest || atBreak next.rest then
        let (left, next) ← readGap (some indent) (next.rest.length + 1) left next
        if !flow && decide (next.column < indent) then .ok (acc, left.isBreak, next)
        else readPlainFrom flow indent fuel acc left next
      else .ok (acc, left.isBreak, next)

/-- Reads a plain text. -/
def readPlain (flow : Bool) (indent : Nat) (c : Cursor) :
    Except Fault (Text × Bool × Cursor) :=
  readPlainFrom flow indent (c.rest.length + 1) [] (.spaces []) c

/-! ## Block texts -/

/-- What happens to the line breaks at the end of a block text. -/
inductive Chomp where
  /-- All are dropped. -/
  | strip
  /-- The first one is kept. -/
  | clip
  /-- All are kept. -/
  | keep
  deriving DecidableEq, Repr

/-- Reads the marks after the bar or the angle of a block text: how to treat its end, and how far
it is indented. -/
def readBlockMarks : Text → Except Fault (Chomp × Option Nat × Nat)
  | '+' :: d :: _ => marks .keep d
  | '-' :: d :: _ => marks .strip d
  | ['+'] => .ok (.keep, none, 1)
  | ['-'] => .ok (.strip, none, 1)
  | d :: rest =>
    if d.isDigit then
      if d == '0' then .error .blockHeader
      else match rest with
        | '+' :: _ => .ok (.keep, some (d.toNat - 48), 2)
        | '-' :: _ => .ok (.strip, some (d.toNat - 48), 2)
        | _ => .ok (.clip, some (d.toNat - 48), 1)
    else .ok (.clip, none, 0)
  | [] => .ok (.clip, none, 0)
where
  /-- The marks when the treatment of the end comes first. -/
  marks (chomp : Chomp) (d : Char) : Except Fault (Chomp × Option Nat × Nat) :=
    if d.isDigit then
      if d == '0' then .error .blockHeader else .ok (chomp, some (d.toNat - 48), 2)
    else .ok (chomp, none, 1)

/-- Reads the indentation of lines and the breaks of empty ones.  While the indentation of the
text is not known, it gives the greatest column that was reached, too. -/
def readIndent (indent : Option Nat) : Nat → Text → Nat → Cursor →
    Except Fault (Text × Nat × Cursor)
  | 0, breaks, widest, c => .ok (breaks, widest, c)
  | fuel + 1, breaks, widest, c =>
    let open? (column : Nat) := (indent.map (fun i => decide (column < i))).getD true
    let wanted := match indent with
      | some i => i - c.column
      | none => c.rest.length
    let blanks := ((c.rest.take wanted).takeWhile (· == ' ')).length
    let c := c.skip blanks
    let widest := max widest c.column
    if open? c.column && c.rest.head? == some '\t' then .error .tabIndent
    else if atBreak c.rest then
      let (b, c) := c.skipBreak
      readIndent indent fuel (breaks ++ b) widest c
    else .ok (breaks, widest, c)

/-- Reads the lines of a block text.  `first` is the break of the line before and `others` are
those of the empty lines after it; `wasSpaced` tells whether that line began with a blank. -/
def readBlockLines (literal : Bool) (indent : Nat) : Nat → Text → Text → Text → Bool → Cursor →
    Except Fault (Text × Text × Text × Cursor)
  | 0, acc, first, others, _, c => .ok (acc, first, others, c)
  | fuel + 1, acc, first, others, wasSpaced, c =>
    if c.column = indent && !c.rest.isEmpty then do
      let spaced := atSpace c.rest
      let joined :=
        if !literal && first.head? == some '\n' && !wasSpaced && !spaced then
          if others.isEmpty then [' '] else others
        else first ++ others
      let (line, c) := c.takeWhile (fun x => !isBreak x)
      let (first, c) := c.skipBreak
      let (others, _, c) ← readIndent (some indent) (c.rest.length + 1) [] 0 c
      readBlockLines literal indent fuel (acc ++ joined ++ line) first others spaced c
    else .ok (acc, first, others, c)

/-- Reads a block text, from its bar or angle on.  `parent` is the indentation of what it stands
in, if that is indented at all. -/
def readBlock (literal : Bool) (parent : Option Nat) (c : Cursor) :
    Except Fault (Text × Cursor) := do
  let c := c.skip 1
  let (chomp, increment, marks) ← readBlockMarks c.rest
  let c := (c.skip marks).takeWhile isSpace |>.2
  let c := if c.rest.head? == some '#' then (c.takeWhile (fun x => !isBreak x)).2 else c
  if !(c.rest.isEmpty || atBreak c.rest) then throw .blockHeader
  let c := c.skipBreak.2
  let known := increment.map (fun n => match parent with
    | some p => p + n
    | none => n)
  let (others, widest, c) ← readIndent known (c.rest.length + 1) [] 0 c
  let least := match parent with
    | some p => max (p + 1) 1
    | none => 1
  let indent := known.getD (max widest least)
  let (acc, first, others, c) ←
    readBlockLines literal indent (c.rest.length + 1) [] [] others false c
  let ending := match chomp with
    | .strip => []
    | .clip => first
    | .keep => first ++ others
  return (acc ++ ending, c)

end Yaml
end Mailroom
