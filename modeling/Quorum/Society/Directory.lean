import Quorum.Fault
import Quorum.Record.Key
import Quorum.Table
import Quorum.Bytes

/-!
# The directory

Public records by kind and owner: the society's key set, the channel keys of the parties, and
sealed results. A later record of the same kind and owner replaces the earlier one.

## Main definitions

* `Directory` — records by key
* `Directory.publish`, `Directory.lookup` — writing and reading a record
* `Directory.peers` — the owners of channel keys
* `Directories` — directories by number, for parties that share one
-/

namespace Quorum

/-- Public records by key. -/
structure Directory where
  records : Table String Bytes
deriving Inhabited

namespace Directory

/-- The directory without records. -/
def empty : Directory := ⟨.empty⟩

/-- Writes a record. -/
def publish (d : Directory) (kind : RecordKind) (owner : String) (value : Bytes) : Directory :=
  ⟨d.records.insert (RecordKey.write kind owner) value⟩

/-- Reads a record. -/
def lookup (d : Directory) (kind : RecordKind) (owner : String) : Outcome Bytes :=
  match d.records.get? (RecordKey.write kind owner) with
  | some value => .ok value
  | none => .error (.unknownPeer kind owner)

/-- The owner under which the society's key set is published. -/
def societyOwner : String := "society"

/-- Publishes the society's key set. -/
def publishSociety (d : Directory) (value : Bytes) : Directory :=
  d.publish .societyPublicKey societyOwner value

/-- The society's key set. -/
def society (d : Directory) : Outcome Bytes := d.lookup .societyPublicKey societyOwner

/-- Publishes a party's channel key. -/
def publishPeer (d : Directory) (owner : String) (value : Bytes) : Directory :=
  d.publish .channelPublicKey owner value

/-- A party's channel key. -/
def peer (d : Directory) (owner : String) : Outcome Bytes := d.lookup .channelPublicKey owner

/-- The owner of a channel key, read from its record key. -/
def channelOwner? (key : String) : Option String :=
  match RecordKey.read? key with
  | some (.channelPublicKey, owner) => some owner
  | _ => none

/-- The owners of channel keys, in the order of their texts. -/
def peers (d : Directory) : List String :=
  (d.records.keys.filterMap channelOwner?).mergeSort fun s t => s ≤ t

/-- Whether there is a record with a key. -/
def contains (d : Directory) (key : String) : Bool := d.records.contains key

/-- The number of records. -/
def size (d : Directory) : Nat := d.records.size

end Directory

/-- Directories by number: parties that hold the same number share one directory. -/
structure Directories where
  /-- The directories in the order in which they were made. -/
  slots : List Directory
deriving Inhabited

namespace Directories

/-- No directory. -/
def none : Directories := ⟨[]⟩

/-- The directory with a number. -/
def get (ds : Directories) (number : Nat) : Directory := ds.slots.getD number .empty

/-- Replaces the directory with a number. -/
def set (ds : Directories) (number : Nat) (d : Directory) : Directories :=
  ⟨ds.slots.set number d⟩

/-- Makes a directory, and gives its number. -/
def make (ds : Directories) : Nat × Directories := (ds.slots.length, ⟨ds.slots ++ [.empty]⟩)

/-- The directory that a party works on: the one it is given if that holds records, and otherwise a
new one. -/
def adopt (ds : Directories) : Option Nat → Nat × Directories
  | some number => if (ds.get number).size = 0 then ds.make else (number, ds)
  | .none => ds.make

end Directories

end Quorum
