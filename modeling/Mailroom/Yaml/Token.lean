import Mailroom.Yaml.Scalar

/-!
# The tokens of a YAML document

`tokens` cuts a document into tokens.  Indentation becomes tokens of its own, which open and
close blocks.

* A key is known as one only when its colon comes.  Until then the place where it began is kept
  as a `PossibleKey`; a key is on one line and shorter than 1024 characters.
* Outside of brackets and braces a text that begins a line at the indentation of its block has to
  be a key.
-/

namespace Mailroom
namespace Yaml

/-- A token. -/
inductive Token where
  /-- The version that a document is written in. -/
  | version (major minor : Nat)
  /-- A handle for tags, and what it stands for. -/
  | handle (name lead : Text)
  /-- Three hyphens at the beginning of a document. -/
  | documentStart
  /-- Three dots at the end of a document. -/
  | documentEnd
  /-- A block of entries begins. -/
  | sequenceBlock
  /-- A block of keys and values begins. -/
  | mappingBlock
  /-- A block ends. -/
  | blockEnd
  /-- An opening bracket. -/
  | openBracket
  /-- A closing bracket. -/
  | closeBracket
  /-- An opening brace. -/
  | openBrace
  /-- A closing brace. -/
  | closeBrace
  /-- The hyphen of an entry. -/
  | entry
  /-- A comma. -/
  | comma
  /-- A key follows. -/
  | key
  /-- A value follows. -/
  | value
  /-- The name of a node that was given before. -/
  | alias (name : Text)
  /-- The name that the next node gets. -/
  | anchor (name : Text)
  /-- The handle and the rest of a tag. -/
  | tag (handle rest : Text)
  /-- A text, and whether it is plain. -/
  | scalar (text : Text) (plain : Bool)
  deriving DecidableEq, Repr

/-- A place where a key may have begun. -/
structure PossibleKey where
  /-- Whether a key has to begin there. -/
  required : Bool
  /-- The number of the token that the key would stand before. -/
  token : Nat
  /-- The place. -/
  place : Cursor

/-- The state of the cutting. -/
structure Cutter where
  /-- What is left. -/
  place : Cursor
  /-- The tokens so far. -/
  done : Array Token
  /-- The indentation of the innermost block, if there is one. -/
  indent : Option Nat
  /-- The indentations of the blocks around it, innermost first. -/
  outer : List (Option Nat)
  /-- Whether a key may begin here. -/
  keyAllowed : Bool
  /-- The possible key outside of brackets and braces. -/
  blockKey : Option PossibleKey
  /-- The possible keys inside of them, innermost first. -/
  flowKeys : List (Option PossibleKey)

namespace Cutter

/-- Whether the place is inside brackets or braces. -/
def inFlow (s : Cutter) : Bool := !s.flowKeys.isEmpty

/-- Adds a token. -/
def push (s : Cutter) (t : Token) : Cutter := { s with done := s.done.push t }

/-- Adds a token before the token of a number. -/
def insertAt (s : Cutter) (n : Nat) (t : Token) : Cutter :=
  { s with done := ((s.done.toList.take n) ++ t :: s.done.toList.drop n).toArray }

/-- Goes on to a place. -/
def goTo (s : Cutter) (c : Cursor) : Cutter := { s with place := c }

/-- The innermost possible key. -/
def possible (s : Cutter) : Option PossibleKey :=
  match s.flowKeys with
  | k :: _ => k
  | [] => s.blockKey

/-- Sets the innermost possible key. -/
def setPossible (s : Cutter) (k : Option PossibleKey) : Cutter :=
  match s.flowKeys with
  | _ :: ks => { s with flowKeys := k :: ks }
  | [] => { s with blockKey := k }

/-- Forgets a possible key that is no key, unless it has to be one. -/
def forget (k : Option PossibleKey) : Except Fault (Option PossibleKey) :=
  match k with
  | some k => if k.required then .error .noColon else .ok none
  | none => .ok none

/-- Forgets the innermost possible key. -/
def forgetKey (s : Cutter) : Except Fault Cutter := do
  let k ← forget s.possible
  return s.setPossible k

/-- Whether a key that began at a place is still possible at a later one. -/
def isFresh (k : PossibleKey) (c : Cursor) : Bool :=
  k.place.line == c.line && decide (c.index ≤ k.place.index + 1024)

/-- Forgets all possible keys that are too far away. -/
def forgetStale (s : Cutter) : Except Fault Cutter := do
  let check (k : Option PossibleKey) : Except Fault (Option PossibleKey) :=
    match k with
    | some p => if isFresh p s.place then .ok k else forget k
    | none => .ok none
  let flowKeys ← s.flowKeys.mapM check
  let blockKey ← check s.blockKey
  return { s with flowKeys := flowKeys, blockKey := blockKey }

/-- Notes that a key may begin here. -/
def noteKey (s : Cutter) : Except Fault Cutter :=
  if s.keyAllowed then do
    let s ← s.forgetKey
    let required := !s.inFlow && s.indent == some s.place.column
    return s.setPossible (some ⟨required, s.done.size, s.place⟩)
  else .ok s

/-- Opens a block at a column, if that is deeper than the block around it.  Its token stands
before the token of a number. -/
def openBlock (s : Cutter) (column token : Nat) (t : Token) : Cutter :=
  let deeper := match s.indent with
    | some i => decide (i < column)
    | none => true
  if !s.inFlow && deeper then
    { s.insertAt token t with indent := some column, outer := s.indent :: s.outer }
  else s

/-- Closes the blocks that are deeper than a column; all of them, if there is no column. -/
def closeBlocks (s : Cutter) (column : Option Nat) : Cutter :=
  if s.inFlow then s
  else go s s.outer s.indent
where
  /-- Closes blocks, with the indentations around the innermost one at hand. -/
  go (s : Cutter) (outer : List (Option Nat)) (indent : Option Nat) : Cutter :=
    match indent, outer with
    | some i, o :: rest =>
      let deeper := match column with
        | some c => decide (c < i)
        | none => true
      if deeper then go (s.push .blockEnd) rest o
      else { s with indent := indent, outer := outer }
    | _, _ => { s with indent := indent, outer := outer }

/-! ## Skipping to the next token -/

/-- Skips blanks, comments and line breaks. -/
def skipGap : Nat → Cutter → Cutter
  | 0, s => s
  | fuel + 1, s =>
    let c := s.place
    let tabs := s.inFlow || !s.keyAllowed
    let c := (c.takeWhile (fun x => x == ' ' || (tabs && x == '\t'))).2
    let c := if c.rest.head? == some '#' then (c.takeWhile (fun x => !isBreak x)).2 else c
    if atBreak c.rest then
      skipGap fuel { s with
        place := c.skipBreak.2, keyAllowed := if s.inFlow then s.keyAllowed else true }
    else s.goTo c

/-! ## Names and tags -/

/-- Reads the name after an ampersand or an asterisk. -/
def readName (c : Cursor) : Except Fault (Text × Cursor) :=
  let (name, c) := (c.skip 1).takeWhile isNameChar
  let ended := atGap c.rest ||
    (c.rest.head?.map (fun x => ("?:,]\x7d%@`" : Text).contains x)).getD false
  if name.isEmpty || !ended then .error .badName else .ok (name, c)

/-- Whether a character may stand in a tag. -/
def isTagChar (c : Char) : Bool := isNameChar c || (";/?:@&=+$.!~*'()%" : Text).contains c

/-- Whether a character may stand in a tag that is written in full, or in what a handle stands
for. -/
def isFullTagChar (c : Char) : Bool := isTagChar c || c == ',' || c == '[' || c == ']'

/-- Reads a tag, from its exclamation mark on. -/
def readTag (flow : Bool) (c : Cursor) : Except Fault (Text × Text × Cursor) := do
  let (handle, rest, c) ←
    match c.rest with
    | '!' :: '<' :: _ =>
      let (uri, c) := (c.skip 2).takeWhile isFullTagChar
      if c.rest.head? == some '>' then pure ([], uri, c.skip 1) else throw .badName
    | _ =>
      let (name, c') := (c.skip 1).takeWhile isNameChar
      if c'.rest.head? == some '!' then
        let (rest, c) := (c'.skip 1).takeWhile isTagChar
        if rest.isEmpty then throw .badName
        pure ('!' :: name ++ ['!'], rest, c)
      else
        let (rest, c) := (c.skip 1).takeWhile isTagChar
        pure (if rest.isEmpty then ([], ['!'], c) else (['!'], rest, c))
  if atGap c.rest || (flow && c.rest.head? == some ',') then return (handle, rest, c)
  else throw .badName

/-- Reads the end of a directive's line. -/
def endDirective (c : Cursor) : Except Fault Cursor :=
  let c := (c.takeWhile isSpace).2
  let c := if c.rest.head? == some '#' then (c.takeWhile (fun x => !isBreak x)).2 else c
  if c.rest.isEmpty || atBreak c.rest then .ok c.skipBreak.2 else .error .badName

/-- Reads a directive, from its percent sign on. -/
def readDirective (c : Cursor) : Except Fault (Token × Cursor) := do
  let (name, c) := (c.skip 1).takeWhile isNameChar
  if name.isEmpty || !atGap c.rest then throw .badName
  let c := (c.takeWhile isSpace).2
  if name = ("YAML" : Text) then
    let (major, c) := c.takeWhile Char.isDigit
    if c.rest.head? != some '.' then throw .badName
    let (minor, c) := (c.skip 1).takeWhile Char.isDigit
    match Text.toNat? 10 major, Text.toNat? 10 minor with
    | some a, some b => return (.version a b, ← endDirective c)
    | _, _ => throw .badName
  else if name = ("TAG" : Text) then
    let (handle, c) := c.takeWhile (fun x => isNameChar x || x == '!')
    if handle.head? != some '!' || handle.getLast? != some '!' || !atSpace c.rest then
      throw .badName
    let c := (c.takeWhile isSpace).2
    let (lead, c) := c.takeWhile isFullTagChar
    if lead.isEmpty || !atGap c.rest then throw .badName
    return (.handle handle lead, ← endDirective c)
  else throw .badName

/-! ## One token -/

/-- Ends all blocks before a directive or a marker. -/
def leaveBlocks (s : Cutter) : Except Fault Cutter := do
  let s ← (s.closeBlocks none).forgetKey
  return { s with keyAllowed := false }

/-- Adds a token that takes some characters. -/
def take (s : Cutter) (n : Nat) (t : Token) : Cutter := (s.goTo (s.place.skip n)).push t

/-- An opening bracket or brace. -/
def openFlow (s : Cutter) (t : Token) : Except Fault Cutter := do
  let s ← s.noteKey
  return { s.take 1 t with flowKeys := none :: s.flowKeys, keyAllowed := true }

/-- A closing bracket or brace. -/
def closeFlow (s : Cutter) (t : Token) : Except Fault Cutter := do
  let s ← s.forgetKey
  return { s.take 1 t with flowKeys := s.flowKeys.drop 1, keyAllowed := false }

/-- Checks that an entry, a key or a value may begin here, and opens its block. -/
def beginBlock (s : Cutter) (t : Token) : Except Fault Cutter :=
  if s.inFlow then .ok s
  else if s.keyAllowed then .ok (s.openBlock s.place.column s.done.size t)
  else .error .misplaced

/-- The hyphen of an entry. -/
def cutEntry (s : Cutter) : Except Fault Cutter := do
  let s ← s.beginBlock .sequenceBlock
  let s ← s.forgetKey
  return { s.take 1 .entry with keyAllowed := true }

/-- The question mark of a key. -/
def cutKey (s : Cutter) : Except Fault Cutter := do
  let s ← s.beginBlock .mappingBlock
  let s ← s.forgetKey
  return { s.take 1 .key with keyAllowed := !s.inFlow }

/-- The colon of a value. -/
def cutValue (s : Cutter) : Except Fault Cutter :=
  match s.possible with
  | some k =>
    let s := (s.insertAt k.token .key).openBlock k.place.column k.token .mappingBlock
    .ok { (s.setPossible none).take 1 .value with keyAllowed := false }
  | none => do
    let s ← s.beginBlock .mappingBlock
    return { s.take 1 .value with keyAllowed := !s.inFlow }

/-- A text, an anchor, an alias or a tag: it may begin a key, and no key may follow it. -/
def cutNode (s : Cutter) (read : Cursor → Except Fault (Token × Cursor)) :
    Except Fault Cutter := do
  let s ← s.noteKey
  let (t, c) ← read s.place
  return { (s.goTo c).push t with keyAllowed := false }

/-- A quoted text. -/
def cutQuoted (s : Cutter) (single : Bool) : Except Fault Cutter :=
  s.cutNode fun c => (readQuoted single c).map (fun r => (.scalar r.1 false, r.2))

/-- A block text. -/
def cutBlock (s : Cutter) (literal : Bool) : Except Fault Cutter := do
  let s ← s.forgetKey
  let (t, c) ← readBlock literal s.indent s.place
  return { (s.goTo c).push (.scalar t false) with keyAllowed := true }

/-- A plain text. -/
def cutPlain (s : Cutter) : Except Fault Cutter := do
  let s ← s.noteKey
  let least := match s.indent with
    | some i => i + 1
    | none => 0
  let (t, onLaterLine, c) ← readPlain s.inFlow least s.place
  return { (s.goTo c).push (.scalar t true) with keyAllowed := onLaterLine }

/-- Whether a plain text may begin with the text that is left. -/
def beginsPlain (flow : Bool) : Text → Bool
  | [] => false
  | c :: rest =>
    if c == '-' then !atSpace rest
    else if c == '?' || c == ':' then !flow && !atGap rest
    else !(isSpace c || isBreak c || ("-?:,[]\x7b\x7d#&*!|>'\"%@`" : Text).contains c)

/-- Cuts the next token; `none` at the end of the document. -/
def next (s : Cutter) : Except Fault (Option Cutter) := do
  let s := skipGap (s.place.rest.length + 1) s
  let s ← s.forgetStale
  let s := s.closeBlocks (some s.place.column)
  let flow := s.inFlow
  match s.place.rest with
  | [] => return none
  | c :: rest =>
    let start := s.place.column == 0
    some <$>
      if start && c == '%' then do
        let s ← s.leaveBlocks
        let (t, place) ← readDirective s.place
        return (s.goTo place).push t
      else if start && atMarker '-' s.place.rest then do
        let s ← s.leaveBlocks
        return s.take 3 .documentStart
      else if start && atMarker '.' s.place.rest then do
        let s ← s.leaveBlocks
        return s.take 3 .documentEnd
      else if c == '[' then s.openFlow .openBracket
      else if c == '\x7b' then s.openFlow .openBrace
      else if c == ']' then s.closeFlow .closeBracket
      else if c == '\x7d' then s.closeFlow .closeBrace
      else if c == ',' then do
        let s ← s.forgetKey
        return { s.take 1 .comma with keyAllowed := true }
      else if c == '-' && atGap rest then s.cutEntry
      else if c == '?' && (flow || atGap rest) then s.cutKey
      else if c == ':' && (flow || atGap rest) then s.cutValue
      else if c == '*' then s.cutNode fun p => (readName p).map (fun r => (.alias r.1, r.2))
      else if c == '&' then s.cutNode fun p => (readName p).map (fun r => (.anchor r.1, r.2))
      else if c == '!' then
        s.cutNode fun p => (readTag flow p).map (fun r => (.tag r.1 r.2.1, r.2.2))
      else if c == '|' && !flow then s.cutBlock true
      else if c == '>' && !flow then s.cutBlock false
      else if c == '\'' then s.cutQuoted true
      else if c == '"' then s.cutQuoted false
      else if beginsPlain flow s.place.rest then s.cutPlain
      else throw .noToken

/-- Cuts tokens until the document ends. -/
def run : Nat → Cutter → Except Fault Cutter
  | 0, s => .ok s
  | fuel + 1, s => do
    match ← s.next with
    | some s => run fuel s
    | none =>
      let s := { s with place := { s.place with rest := [] } }
      s.leaveBlocks

end Cutter

/-- The tokens of a document.  A byte order mark in front does not count. -/
def tokens (t : Text) : Except Fault (List Token) := do
  let t := match t with
    | '\uFEFF' :: rest => rest
    | t => t
  if !t.all isAllowed then throw .forbiddenChar
  let s ← Cutter.run (t.length + 1) ⟨⟨t, 0, 0, 0⟩, #[], none, [], true, none, []⟩
  return s.done.toList

end Yaml
end Mailroom
