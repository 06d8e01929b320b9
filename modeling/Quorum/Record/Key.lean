import Quorum.Record.Kind
import Quorum.Text.WordChar

/-!
# Record keys

Directory records are addressed by their kind and their owner, written as one key.

## Main definitions

* `RecordKey.write` — the key of a kind and an owner
* `RecordKey.isOwner` — the owners that a key can be read back for
* `RecordKey.read?` — the kind and owner of a key
-/

namespace Quorum

namespace RecordKey

/-- The key of a kind and an owner. -/
def write (kind : RecordKind) (owner : String) : String := kind.name ++ "_" ++ owner

/-- The characters that an owner is read with. -/
def isOwnerChar (c : Char) : Bool := isWordChar c || c == '.' || c == '-'

/-- The owners that a key can be read back for. -/
def isOwner (s : List Char) : Bool := !s.isEmpty && s.all isOwnerChar

/-- A text without one line break at its end. -/
def dropLineBreak (s : List Char) : List Char :=
  if s.getLast? = some '\n' then s.dropLast else s

/-- The owner, if a text is the key of the given kind. One line break at the end is dropped. -/
def owner? (kind : RecordKind) (key : List Char) : Option (List Char) :=
  let head := (kind.name ++ "_").toList
  if key.take head.length = head then
    let owner := dropLineBreak (key.drop head.length)
    if isOwner owner then some owner else none
  else none

/-- The kind and the owner of a key. -/
def read? (key : String) : Option (RecordKind × String) :=
  RecordKind.all.findSome? fun kind =>
    (owner? kind key.toList).map fun owner => (kind, String.ofList owner)

end RecordKey

end Quorum
