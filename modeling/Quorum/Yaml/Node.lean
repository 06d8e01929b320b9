import Quorum.Yaml.Layout
import Quorum.Yaml.Tag

/-!
# Nodes

The tree that the tokens of a document make. Every node has its kind, given by a tag or by its
spelling; references to named nodes are replaced by the nodes. A collection that refers to itself is
unfolded once: it holds itself, and an empty collection where it would hold itself again.

## Main definitions

* `Yaml.Node` — scalars, sequences and mappings with their kinds
* `Yaml.Reader` — readers of tokens, which keep the named nodes and the handles of tags
* `Yaml.Reader.tied` — reads a node under its name
* `Yaml.node` — reads a node
* `Yaml.Node.ofText` — the single document of a text, if there is one
-/

namespace Quorum

namespace Yaml

/-- A node of a document. -/
inductive Node where
  | scalar (tag : Tag) (text : String)
  | sequence (tag : Tag) (items : List Node)
  | mapping (tag : Tag) (entries : List (Node × Node))

instance : Inhabited Node := ⟨.scalar .null ""⟩

namespace Node

/-- The kind of a node. -/
def tag : Node → Tag
  | scalar t _ => t
  | sequence t _ => t
  | mapping t _ => t

/-- A scalar that is not written. -/
def absent : Node := scalar .null ""

end Node

/-- The state of a reader: the tokens to come, what stands behind the last of them, the named nodes
and the handles of tags. -/
structure Source where
  /-- The tokens to come. -/
  tokens : List Token
  /-- What stands behind the last token. -/
  ending : Failure
  /-- The named nodes. -/
  anchors : List (String × Node)
  /-- The handles of tags, and what they stand for. -/
  handles : List (String × String)

/-- A reader of tokens. -/
abbrev Reader := StateT Source (Except Failure)

namespace Reader

/-- Fails by breaking a rule of the format. -/
def reject {α : Type} : Reader α := throw .malformed

/-- The next token, which is not consumed. -/
def peek : Reader Token := do
  let s ← get
  match s.tokens with
  | t :: _ => return t
  | [] => throw s.ending

/-- Consumes the next token. -/
def skip : Reader Unit := modify fun s => { s with tokens := s.tokens.tail }

/-- Consumes the next token if it is the given one, and tells whether it was. -/
def accept (t : Token) : Reader Bool := do
  if (← peek) = t then
    skip
    return true
  else return false

/-- Consumes the next token, which must be the given one. -/
def expect (t : Token) : Reader Unit := do
  if !(← accept t) then reject

/-- Whether the next token is one of the given ones. -/
def sees (ts : List Token) : Reader Bool := do return ts.contains (← peek)

/-- A node by its name. -/
def named (name : String) : Reader Node := do
  match (← get).anchors.find? fun e => e.1 == name with
  | some e => return e.2
  | none => reject

/-- Names a node; a name may be given once. -/
def nameNode (name : String) (n : Node) : Reader Unit := do
  if (← get).anchors.any fun e => e.1 == name then reject
  modify fun s => { s with anchors := (name, n) :: s.anchors }

/-- Replaces the node that a name stands for. -/
def renameNode (name : String) (n : Node) : Reader Unit :=
  modify fun s => { s with
    anchors := s.anchors.map fun e => if e.1 == name then (name, n) else e }

/-- Reads a node under its name. Inside a collection the name stands for the collection itself;
where that one refers to itself again, an outline stands for it, so that a node is always a finite
tree. -/
def tied (outline : Node) (read : Reader Node) : Option String → Reader Node
  | none => read
  | some w => do
    nameNode w outline
    let start ← get
    let n ← read
    let passed := start.tokens.take (start.tokens.length - (← get).tokens.length)
    if passed.contains (.alias w) then
      -- Only now it is known what the name stands for: the same tokens are read once more.
      set start
      renameNode w n
      let n ← read
      renameNode w n
      return n
    else
      renameNode w n
      return n

/-- A tag in full. -/
def fullTag (handle : Option String) (rest : String) : Reader String := do
  match handle with
  | none => return rest
  | some h =>
    match (← get).handles.find? fun e => e.1 == h with
    | some e => return e.2 ++ rest
    | none => reject

/-- A name, if one stands here. -/
def anchor? : Reader (Option String) := do
  match ← peek with
  | .anchor w =>
    skip
    return some w
  | _ => return none

/-- A tag in full, if one stands here. -/
def tag? : Reader (Option String) := do
  match ← peek with
  | .tag h t =>
    skip
    return some (← fullTag h t)
  | _ => return none

/-- The name and the tag in front of a node, in either order. -/
def properties : Reader (Option String × Option String) := do
  match ← anchor? with
  | some w => return (some w, ← tag?)
  | none =>
    let t ← tag?
    return (← if t.isSome then anchor? else pure none, t)

end Reader

/-- The kind of a scalar: that of its tag, or of its spelling if it is plain or marked as such. -/
def scalarTag (tag : Option String) (plain : Bool) (text : String) : Tag :=
  match tag with
  | none => if plain then .ofPlain text else .str
  | some t => if t = "!" then .ofPlain text else .ofName t

/-- The kind of a sequence or mapping: that of its tag, or the usual one. -/
def collectionTag (tag : Option String) (usual : Tag) : Tag :=
  match tag with
  | none => usual
  | some t => if t = "!" then usual else .ofName t

open Reader

mutual

/-- Reads a node. `block` allows sequences and mappings by indentation, `loose` a sequence that is
not indented further than the key before it. -/
def node : (fuel : Nat) → (block loose : Bool) → Reader Node
  | 0, _, _ => reject
  | fuel + 1, block, loose => do
    if let .alias w ← peek then
      skip
      return ← named w
    let (name, tag) ← properties
    let sequence (read : Reader (List Node)) : Reader Node :=
      let make := Node.sequence (collectionTag tag .seq)
      tied (make []) (make <$> read) name
    let mapping (read : Reader (List (Node × Node))) : Reader Node :=
      let make := Node.mapping (collectionTag tag .map)
      tied (make []) (make <$> read) name
    let scalar (plain : Bool) (text : String) : Reader Node :=
      tied .absent (pure (.scalar (scalarTag tag plain text) text)) name
    match ← peek with
    | .scalar plain text =>
      skip
      scalar plain text
    -- Items of a sequence that is the value of a key may stand in the column of the key.
    | .item =>
      if loose then sequence (looseItems fuel)
      else if name.isSome || tag.isSome then scalar true ""
      else reject
    | .openList =>
      skip
      sequence (listItems fuel true)
    | .openMap =>
      skip
      mapping (mapEntries fuel true)
    | .sequenceStart =>
      if block then
        skip
        sequence (items fuel)
      else if name.isSome || tag.isSome then scalar true ""
      else reject
    | .mappingStart =>
      if block then
        skip
        mapping (entries fuel)
      else if name.isSome || tag.isSome then scalar true ""
      else reject
    -- A name or a tag may stand alone, for a scalar that is not written.
    | _ => if name.isSome || tag.isSome then scalar true "" else reject

/-- Reads a node, or finds it absent before one of the given tokens. -/
def nodeBefore : (fuel : Nat) → List Token → (block loose : Bool) → Reader Node
  | 0, _, _, _ => reject
  | fuel + 1, ends, block, loose => do
    if ← sees ends then return .absent else node fuel block loose

/-- Reads the items of a sequence by indentation, and its end. -/
def items : (fuel : Nat) → Reader (List Node)
  | 0 => reject
  | fuel + 1 => do
    if ← accept .item then
      let n ← nodeBefore fuel [.item, .blockEnd] true false
      return n :: (← items fuel)
    else
      expect .blockEnd
      return []

/-- Reads the items of a sequence that is not indented; something else ends it. -/
def looseItems : (fuel : Nat) → Reader (List Node)
  | 0 => reject
  | fuel + 1 => do
    if ← accept .item then
      let n ← nodeBefore fuel [.item, .key, .value, .blockEnd] true false
      return n :: (← looseItems fuel)
    else return []

/-- Reads the entries of a mapping by indentation, and its end. -/
def entries : (fuel : Nat) → Reader (List (Node × Node))
  | 0 => reject
  | fuel + 1 => do
    if ← accept .key then
      let k ← nodeBefore fuel [.key, .value, .blockEnd] true true
      let v ←
        if ← accept .value then nodeBefore fuel [.key, .value, .blockEnd] true true
        else pure .absent
      return (k, v) :: (← entries fuel)
    else
      expect .blockEnd
      return []

/-- Reads the items of a list in brackets, and its end. A key among the items makes a mapping of
one entry. -/
def listItems : (fuel : Nat) → (first : Bool) → Reader (List Node)
  | 0, _ => reject
  | fuel + 1, first => do
    if ← accept .closeList then return []
    if !first then expect .comma
    if ← accept .key then
      let k ← nodeBefore fuel [.value, .comma, .closeList] false false
      let v ←
        if ← accept .value then nodeBefore fuel [.comma, .closeList] false false
        else pure .absent
      return Node.mapping .map [(k, v)] :: (← listItems fuel false)
    else if ← accept .closeList then return []
    else
      let n ← node fuel false false
      return n :: (← listItems fuel false)

/-- Reads the entries of a mapping in braces, and its end. -/
def mapEntries : (fuel : Nat) → (first : Bool) → Reader (List (Node × Node))
  | 0, _ => reject
  | fuel + 1, first => do
    if ← accept .closeMap then return []
    if !first then expect .comma
    if ← accept .key then
      let k ← nodeBefore fuel [.value, .comma, .closeMap] false false
      let v ←
        if ← accept .value then nodeBefore fuel [.comma, .closeMap] false false
        else pure .absent
      return (k, v) :: (← mapEntries fuel false)
    else if ← accept .closeMap then return []
    else
      let k ← node fuel false false
      return (k, .absent) :: (← mapEntries fuel false)

end

/-- Reads the directives in front of a document; `versioned` tells whether one gave the version. -/
def directives : (fuel : Nat) → (versioned : Bool) → Reader Unit
  | 0, _ => reject
  | fuel + 1, versioned => do
    match ← peek with
    | .directive (.version major _) =>
      if versioned || major != 1 then reject
      skip
      directives fuel true
    | .directive (.handle name target) =>
      if (← get).handles.any fun e => e.1 == name then reject
      modify fun s => { s with handles := (name, target) :: s.handles }
      skip
      directives fuel versioned
    | .directive .other =>
      skip
      directives fuel versioned
    | _ => return

/-- The handles that every document has, unless it sets them itself. -/
def usualHandles : List (String × String) := [("!", "!"), ("!!", Tag.home)]

/-- Consumes markers for the end of a document. -/
def documentEnds : (fuel : Nat) → Reader Unit
  | 0 => reject
  | fuel + 1 => do if ← accept .documentEnd then documentEnds fuel

/-- Reads a document after its first marker. -/
def markedDocument (fuel : Nat) : Reader Node := do
  directives fuel false
  modify fun s => { s with handles := s.handles ++ usualHandles }
  expect .documentStart
  match ← peek with
  | .directive _ | .documentStart | .documentEnd | .streamEnd => return .absent
  | _ => node fuel true false

/-- Reads the single document of a text; an empty text has none. -/
def document (fuel : Nat) : Reader (Option Node) := do
  match ← peek with
  | .streamEnd => return none
  | t =>
    let n ←
      match t with
      | .directive _ | .documentStart => markedDocument fuel
      | _ =>
        -- Without a marker there were no directives either.
        modify fun s => { s with handles := usualHandles }
        node fuel true false
    documentEnds fuel
    expect .streamEnd
    return some n

/-- The characters that a text may hold. -/
def isReadable (c : Char) : Bool :=
  let n := c.toNat
  n == 9 || n == 10 || n == 13 || (0x20 ≤ n && n ≤ 0x7E) || n == 0x85 ||
    (0xA0 ≤ n && n ≤ 0xFFFD) || 0x10000 ≤ n

/-- The single document of a text, if there is one. -/
def Node.ofText (s : List Char) : Except Failure (Option Node) :=
  if !s.all isReadable then .error .malformed
  else
    let (tokens, ending) := scan s
    (document (2 * tokens.length + 4)).run' ⟨tokens, ending, [], []⟩

end Yaml

end Quorum
