import Mailroom.Yaml.Token
import Mailroom.Yaml.Value

/-!
# The nodes of a YAML document

A document is a tree of texts, lists and mappings.  `Node.ofText?` reads one from its tokens; an
alias stands for the node that was given its name before.

* `Node.value?` says what a node means, with tags and plain texts taken into account.
-/

namespace Mailroom
namespace Yaml

/-- A node. -/
inductive Node where
  /-- A text, whether it is plain, and its tag. -/
  | scalar (text : Text) (plain : Bool) (tag : Option Text)
  /-- A list and its tag. -/
  | list (items : List Node) (tag : Option Text)
  /-- Keys, their values, and the tag. -/
  | mapping (entries : List (Node × Node)) (tag : Option Text)

namespace Node

instance : Inhabited Node := ⟨.scalar [] true none⟩

/-- The node that stands where there is none. -/
def missing : Node := .scalar [] true none

/-! ## Reading -/

/-- The state of the reading. -/
structure Reader where
  /-- The tokens that are left. -/
  left : List Token
  /-- The nodes that have names; a node that is not finished has a name and no content. -/
  named : List (Text × Option Node)
  /-- The handles for tags. -/
  handles : List (Text × Text)

/-- A step of the reading. -/
abbrev Read (α : Type) := StateT Reader (Except Fault) α

/-- The next token. -/
def peek : Read (Option Token) := do return (← get).left.head?

/-- Passes over the next token. -/
def pass : Read Unit := modify fun r => { r with left := r.left.drop 1 }

/-- Passes over the next token if it is a given one, and tells whether it was. -/
def accept (t : Token) : Read Bool := do
  if (← peek) == some t then pass; return true
  return false

/-- The tag that a handle and the rest of a tag stand for. -/
def resolveTag (handle rest : Text) : Read Text := do
  if handle.isEmpty then return rest
  match (← get).handles.lookup handle with
  | some lead => return lead ++ rest
  | none => throw .badName

/-- Reads the name and the tag in front of a node, in either order. -/
def properties : Nat → Option Text → Option Text → Read (Option Text × Option Text)
  | 0, name, tag => return (name, tag)
  | fuel + 1, name, tag => do
    match ← peek, name, tag with
    | some (.anchor n), none, tag => pass; properties fuel (some n) tag
    | some (.tag h r), name, none => pass; properties fuel name (some (← resolveTag h r))
    | _, _, _ => return (name, tag)

/-- Gives a node a name. -/
def giveName (name : Option Text) (n : Option Node) : Read Unit := do
  match name with
  | some name => modify fun r => { r with named := (name, n) :: r.named }
  | none => return

/-- Whether a node may be left out before a token. -/
def isLeftOut (ends : List Token) : Read Bool := do
  match ← peek with
  | some t => return ends.contains t
  | none => return false

mutual

/-- Reads a node.  `block` tells whether it may be a block, and `flush` whether it may be a list
that is indented as much as the mapping around it. -/
def node : Nat → (block flush : Bool) → Read Node
  | 0, _, _ => throw .tooDeep
  | fuel + 1, block, flush => do
    match ← peek with
    | some (.alias name) =>
      pass
      match (← get).named.lookup name with
      | some (some n) => return n
      | _ => throw .unknownAnchor
    | _ =>
      let (name, tag) ← properties 2 none none
      giveName name none
      let n ← content fuel block flush (name.isSome || tag.isSome) tag
      giveName name (some n)
      return n

/-- Reads what follows the name and the tag of a node. -/
def content : Nat → (block flush marked : Bool) → Option Text → Read Node
  | 0, _, _, _, _ => throw .tooDeep
  | fuel + 1, block, flush, marked, tag => do
    match ← peek with
    | some .entry =>
      if flush then return .list (← flushList fuel) tag
      else if marked then return .scalar [] true tag
      else throw .noContent
    | some (.scalar t plain) => pass; return .scalar t plain tag
    | some .openBracket => pass; return .list (← bracketList fuel true) tag
    | some .openBrace => pass; return .mapping (← braceMapping fuel true) tag
    | some .sequenceBlock =>
      if block then pass; return .list (← blockList fuel) tag
      else if marked then return .scalar [] true tag
      else throw .noContent
    | some .mappingBlock =>
      if block then pass; return .mapping (← blockMapping fuel) tag
      else if marked then return .scalar [] true tag
      else throw .noContent
    | _ => if marked then return .scalar [] true tag else throw .noContent

/-- Reads the entries of a block. -/
def blockList : Nat → Read (List Node)
  | 0 => throw .tooDeep
  | fuel + 1 => do
    if ← accept .entry then
      let item ← if ← isLeftOut [.entry, .blockEnd] then pure missing else node fuel true false
      return item :: (← blockList fuel)
    else if ← accept .blockEnd then return []
    else throw .noContent

/-- Reads entries that are indented as much as the mapping around them. -/
def flushList : Nat → Read (List Node)
  | 0 => throw .tooDeep
  | fuel + 1 => do
    if ← accept .entry then
      let item ← if ← isLeftOut [.entry, .key, .value, .blockEnd] then pure missing
        else node fuel true false
      return item :: (← flushList fuel)
    else return []

/-- Reads a key or a value of a block. -/
def blockPart : Nat → Read Node
  | 0 => throw .tooDeep
  | fuel + 1 => do
    if ← isLeftOut [.key, .value, .blockEnd] then return missing else node fuel true true

/-- Reads the keys and values of a block. -/
def blockMapping : Nat → Read (List (Node × Node))
  | 0 => throw .tooDeep
  | fuel + 1 => do
    if ← accept .key then
      let k ← blockPart fuel
      let v ← if ← accept .value then blockPart fuel else pure missing
      return (k, v) :: (← blockMapping fuel)
    else if ← accept .blockEnd then return []
    else throw .noContent

/-- Reads a key or a value inside brackets or braces, before one of some tokens. -/
def flowPart : Nat → List Token → Read Node
  | 0, _ => throw .tooDeep
  | fuel + 1, ends => do
    if ← isLeftOut ends then return missing else node fuel false false

/-- Reads what is inside brackets. -/
def bracketList : Nat → (first : Bool) → Read (List Node)
  | 0, _ => throw .tooDeep
  | fuel + 1, first => do
    if ← accept .closeBracket then return []
    if !first then
      if !(← accept .comma) then throw .noContent
    if ← accept .closeBracket then return []
    let item ←
      if ← accept .key then
        let k ← flowPart fuel [.value, .comma, .closeBracket]
        let v ← if ← accept .value then flowPart fuel [.comma, .closeBracket] else pure missing
        pure (Node.mapping [(k, v)] none)
      else node fuel false false
    return item :: (← bracketList fuel false)

/-- Reads what is inside braces. -/
def braceMapping : Nat → (first : Bool) → Read (List (Node × Node))
  | 0, _ => throw .tooDeep
  | fuel + 1, first => do
    if ← accept .closeBrace then return []
    if !first then
      if !(← accept .comma) then throw .noContent
    if ← accept .closeBrace then return []
    let e ←
      if ← accept .key then
        let k ← flowPart fuel [.value, .comma, .closeBrace]
        let v ← if ← accept .value then flowPart fuel [.comma, .closeBrace] else pure missing
        pure (k, v)
      else pure (← node fuel false false, missing)
    return e :: (← braceMapping fuel false)

end

/-- The handles that need not be declared. -/
def knownHandles : List (Text × Text) := [("!", "!"), ("!!", "tag:yaml.org,2002:")]

/-- Reads the directives in front of a document, and tells whether there are any. -/
def directives : Nat → Bool → Read Bool
  | 0, found => return found
  | fuel + 1, found => do
    match ← peek with
    | some (.version major minor) =>
      if major ≠ 1 ∨ (minor ≠ 1 ∧ minor ≠ 2) then throw .badName
      pass
      directives fuel true
    | some (.handle name lead) =>
      pass
      modify fun r => { r with handles := (name, lead) :: r.handles }
      directives fuel true
    | _ => return found

/-- Passes over the marks at the end of a document. -/
def endMarks : Nat → Read Unit
  | 0 => return
  | fuel + 1 => do if ← accept .documentEnd then endMarks fuel

/-- Reads the only document; there may be none. -/
def document : Read (Option Node) := do
  let size := (← get).left.length
  if size = 0 then return none
  let found ← directives size false
  let marked ← accept .documentStart
  if found && !marked then throw .noContent
  let bare ← match ← peek with
    | none => pure true
    | some .documentStart => pure marked
    | some .documentEnd => pure marked
    | some (.version ..) => pure marked
    | some (.handle ..) => pure marked
    | some _ => pure false
  let n ← if bare then pure missing else node (3 * size + 3) true false
  endMarks size
  if (← get).left.isEmpty then return some n else throw .manyDocuments

/-! ## Depth -/

mutual

/-- How many lists and mappings are nested in a node. -/
def depth : Node → Nat
  | .scalar .. => 0
  | .list items _ => depthOfAll items + 1
  | .mapping entries _ => depthOfEntries entries + 1

/-- How many lists and mappings are nested in nodes. -/
def depthOfAll : List Node → Nat
  | [] => 0
  | n :: ns => max (depth n) (depthOfAll ns)

/-- How many lists and mappings are nested in keys and values. -/
def depthOfEntries : List (Node × Node) → Nat
  | [] => 0
  | (k, v) :: es => max (max (depth k) (depth v)) (depthOfEntries es)

end

/-- How deeply nodes may be nested. -/
def depthLimit : Nat := 128

/-- Reads the only document of a text; there may be none. -/
def ofText? (t : Text) : Except Fault (Option Node) := do
  let ts ← tokens t
  let (n, _) ← document.run ⟨ts, [], knownHandles⟩
  match n with
  | some n => if n.depth ≤ depthLimit then return some n else throw .tooDeep
  | none => return none

/-! ## Meaning -/

/-- Whether a tag belongs to its document alone. -/
def isLocal (tag : Option Text) : Bool := (tag.bind List.head?) == some '!'

/-- What a text with a tag means; `none` if the tag does not fit it. -/
def scalarValue? (t : Text) (plain : Bool) (tag : Option Text) : Option Value :=
  match tag with
  | none => if plain then Value.ofPlain t else some (.text t)
  | some tag =>
    if tag.head? = some '!' then none
    else if tag = ("tag:yaml.org,2002:bool" : Text) then (Value.boolOf? t).map .bool
    else if tag = ("tag:yaml.org,2002:int" : Text) then
      (Value.intOf? t).bind (fun n => Value.ofInt? n t)
    else if tag = ("tag:yaml.org,2002:float" : Text) then (Value.realOf? t).map .real
    else if tag = ("tag:yaml.org,2002:null" : Text) then
      if Value.isNullText t then some .null else none
    else some (.text t)

mutual

/-- What a node means; `none` if a tag or a number in it has no meaning. -/
def value? : Node → Option Value
  | .scalar t plain tag => scalarValue? t plain tag
  | .list items tag => if isLocal tag then none else (valuesOf? items).map .list
  | .mapping entries tag => if isLocal tag then none else (entriesOf? entries).map .mapping

/-- What nodes mean. -/
def valuesOf? : List Node → Option (List Value)
  | [] => some []
  | n :: ns =>
    match value? n, valuesOf? ns with
    | some v, some vs => some (v :: vs)
    | _, _ => none

/-- What keys and values mean. -/
def entriesOf? : List (Node × Node) → Option (List (Value × Value))
  | [] => some []
  | (k, v) :: es =>
    match value? k, value? v, entriesOf? es with
    | some k, some v, some es => some ((k, v) :: es)
    | _, _, _ => none

end

/-- Whether a node is left out, or a plain spelling of null; `none` for a plain text with the tag
of null that is no spelling of it. -/
def isNull? : Node → Option Bool
  | .scalar t true none => some (t.isEmpty || Value.isNullText t)
  | .scalar t true (some tag) =>
    if tag = ("tag:yaml.org,2002:null" : Text) then
      if Value.isNullText t then some true else none
    else some false
  | _ => some false

/-- Whether a node is left out. -/
def isLeft : Node → Bool
  | .scalar t plain _ => plain && t.isEmpty
  | _ => false

end Node

end Yaml
end Mailroom
