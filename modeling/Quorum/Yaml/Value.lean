import Quorum.Yaml.Node
import Quorum.Yaml.Spelling

/-!
# Values

The value of a document. Mappings are filled entry by entry; entries that are merged into a mapping
come before its own, which replace them. Values are made level by level, so of several failures the
one nearest to the top is met first.

## Main definitions

* `Yaml.Built` — a value with the failures met in it
* `Yaml.Node.build` — the value of a node
* `Yaml.load` — the value of the single document of a text
-/

namespace Quorum

namespace Yaml

/-- A failure, and the level on which it is met. -/
abbrev Deep := Nat × Failure

/-- A value with the failures met in it. -/
structure Built where
  /-- The value, if there are no failures. -/
  datum : Datum
  /-- The failures, in the order of the document. -/
  failures : List Deep


/-- Values with the failures met in them. -/
structure BuiltItems where
  /-- The values. -/
  items : List Datum
  failures : List Deep

/-- The entries of a mapping with the failures met in them. -/
structure BuiltEntries where
  /-- The entries that are merged into the mapping. -/
  merged : List (Datum × Datum)
  /-- The entries of its own. -/
  own : List (Datum × Datum)
  mergeFailures : List Deep
  /-- The failures of keys and values. -/
  failures : List Deep

/-- A mapping filled entry by entry. -/
def fill (es : List (Datum × Datum)) : List (Datum × Datum) :=
  es.foldl (fun m e => Datum.put e.1 e.2 m) []

/-- The entries of a mapping, those that are merged first. -/
def BuiltEntries.entries (b : BuiltEntries) : List (Datum × Datum) := fill (b.merged ++ b.own)

/-- All failures; merging comes first. -/
def BuiltEntries.allFailures (b : BuiltEntries) : List Deep := b.mergeFailures ++ b.failures

/-- Whether a value can be a key. -/
def isKey : Datum → Bool
  | .list _ | .mapping _ => false
  | _ => true

/-- The failure of a key that cannot be one. -/
def keyFailure (level : Nat) (k : Datum) : List Deep :=
  if isKey k then [] else [(level, .malformed)]

/-- Whether a kind is that of scalars. -/
def Tag.isScalar : Tag → Bool
  | null | bool | int | float | binary | timestamp | str => true
  | _ => false

/-- Whether a kind is that of sequences or mappings. -/
def Tag.isCollection : Tag → Bool
  | seq | map | pairs | set => true
  | _ => false

/-- The level on which it is met that a node does not have the shape of its kind: sequences and
mappings are made before they are filled. -/
def Tag.shapeLevel (t : Tag) (level : Nat) : Nat := if t.isCollection then level + 1 else level

/-- What stands for a value of a kind that is not there: a collection stays empty. -/
def Built.fail (t : Tag) (level : Nat) (f : Failure) : Built :=
  ⟨if t.isCollection then .list [] else .null, [(t.shapeLevel level, f)]⟩

namespace Node

mutual

/-- The text of a scalar, or of the value that stands for a mapping. -/
def scalarText? : Node → Option String
  | scalar _ s => some s
  | mapping _ es => valueText? es
  | sequence _ _ => none

/-- The text of the value that stands for a mapping with the given entries. -/
def valueText? : List (Node × Node) → Option String
  | [] => none
  | (k, v) :: es => if k.tag = .value then scalarText? v else valueText? es

end

/-- The value of a scalar. -/
def buildScalar (level : Nat) (t : Tag) (s : String) : Built :=
  match t.datum s with
  | .ok d => ⟨d, []⟩
  | .error f => .fail t level f

mutual

/-- The value of a node on a level. -/
def build (level : Nat) : Node → Built
  | scalar t s => buildScalar level t s
  | sequence t ns =>
    match t with
    | .seq =>
      let b := buildItems (level + 1) ns
      ⟨.list b.items, b.failures⟩
    | .pairs =>
      let b := buildPairs (level + 1) ns
      ⟨.list b.items, b.failures⟩
    | t => .fail t level .malformed
  | mapping t es =>
    match t with
    | .map =>
      let b := buildEntries (level + 1) es
      ⟨.mapping b.entries, b.allFailures⟩
    | .set =>
      let b := buildEntries (level + 1) es
      ⟨.list (b.entries.map Prod.fst), b.allFailures⟩
    | t =>
      match t.isScalar, valueText? es with
      | true, some s =>
        -- A date is looked for in the mapping itself.
        if t = .timestamp then .fail t level .mappedDate else buildScalar level t s
      | _, _ => .fail t level .malformed

/-- The values of nodes. -/
def buildItems (level : Nat) : List Node → BuiltItems
  | [] => ⟨[], []⟩
  | n :: ns =>
    let b := build level n
    let bs := buildItems level ns
    ⟨b.datum :: bs.items, b.failures ++ bs.failures⟩

/-- The values of mappings with one entry each. -/
def buildPairs (level : Nat) : List Node → BuiltItems
  | [] => ⟨[], []⟩
  | mapping _ [(k, v)] :: ns =>
    let bk := build level k
    let bv := build level v
    let bs := buildPairs level ns
    ⟨.list [bk.datum, bv.datum] :: bs.items, bk.failures ++ bv.failures ++ bs.failures⟩
  | _ :: _ => ⟨[], [(level, .malformed)]⟩

/-- The entries of a mapping that is filled on a level. -/
def buildEntries (level : Nat) : List (Node × Node) → BuiltEntries
  | [] => ⟨[], [], [], []⟩
  | (k, v) :: es =>
    let b := buildEntries level es
    match k with
    -- What is merged comes first, so that the entries of the mapping replace it.
    | scalar .merge _ =>
      let s := mergeSource level v
      ⟨s.1 ++ b.merged, b.own, s.2.1 ++ b.mergeFailures, s.2.2 ++ b.failures⟩
    -- As a key this mark is plain text.
    | scalar .value s =>
      let bv := build level v
      ⟨b.merged, (.text s, bv.datum) :: b.own, b.mergeFailures, bv.failures ++ b.failures⟩
    | k =>
      let bk := build level k
      let bv := build level v
      ⟨b.merged, (bk.datum, bv.datum) :: b.own, b.mergeFailures,
        bk.failures ++ keyFailure level bk.datum ++ bv.failures ++ b.failures⟩

/-- The entries that a node merges into a mapping, with the failures of merging and of the
entries. -/
def mergeSource (level : Nat) : Node → List (Datum × Datum) × List Deep × List Deep
  | mapping _ es =>
    let b := buildEntries level es
    (b.merged ++ b.own, b.mergeFailures, b.failures)
  | sequence _ ns => mergeSources level ns
  | scalar _ _ => ([], [(level, .malformed)], [])

/-- The entries that several mappings merge into a mapping, the last of them first. -/
def mergeSources (level : Nat) : List Node → List (Datum × Datum) × List Deep × List Deep
  | [] => ([], [], [])
  | mapping _ es :: ns =>
    let b := buildEntries level es
    let s := mergeSources level ns
    (s.1 ++ (b.merged ++ b.own), b.mergeFailures ++ s.2.1, b.failures ++ s.2.2)
  | _ :: _ => ([], [(level, .malformed)], [])

end

end Node

/-- The failure that is met first: of those on the highest level the first. -/
def firstFailure? : List Deep → Option Deep
  | [] => none
  | d :: ds =>
    match firstFailure? ds with
    | some e => if e.1 < d.1 then some e else some d
    | none => some d

/-- The value of the single document of a text; an empty text has the null value. All of the text is
there before it is read, so a character that no text may hold is met before any other failure. A
document may be nested as deep as it likes, and collections that hold themselves are unfolded once,
which is deeper than the settings in a document are looked for. -/
def load (s : List Char) : Except Failure Datum := do
  match ← Node.ofText s with
  | none => .ok .null
  | some n =>
    let b := n.build 0
    match firstFailure? b.failures with
    | some d => .error d.2
    | none => .ok b.datum

end Yaml

end Quorum
