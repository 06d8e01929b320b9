/-!
# Kinds of directory records

## Main definitions

* `RecordKind` — what a directory record holds
* `RecordKind.name` / `RecordKind.ofName?` — the written name of a kind and its reader
-/

namespace Quorum

/-- What a directory record holds. -/
inductive RecordKind where
  /-- The published key set of the society. -/
  | societyPublicKey
  /-- A party's channel key. -/
  | channelPublicKey
  /-- A result sealed for its recipient. -/
  | sealedResult
deriving DecidableEq, Repr, Inhabited

namespace RecordKind

/-- The written name of a kind. -/
def name : RecordKind → String
  | societyPublicKey => "SOCIETY_PUBLIC_KEY"
  | channelPublicKey => "CHANNEL_PUBLIC_KEY"
  | sealedResult => "SEALED_RESULT"

/-- Every kind. -/
def all : List RecordKind := [societyPublicKey, channelPublicKey, sealedResult]

/-- The kind with a given name. -/
def ofName? (s : String) : Option RecordKind := all.find? fun k => k.name == s

@[simp] theorem ofName?_name (k : RecordKind) : ofName? k.name = some k := by
  cases k <;> decide

end RecordKind

end Quorum
