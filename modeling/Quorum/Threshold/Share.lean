import Quorum.Threshold.Ciphertext

/-!
# Secret shares and decryption shares

An actor's secret share is the value of the sharing polynomial at the actor's point. With it the
actor answers a ciphertext by a decryption share: a point, and a proof that the same secret links
it to the ephemeral point as links the public share to the base point.

## Main definitions

* `SecretShare` — an actor's share of the secret
* `DecryptionShare` — an actor's answer to a ciphertext
* `DecryptionShare.ofParts` — checks the rule of a decryption share
-/

namespace Quorum

/-- An actor's share of the secret. -/
structure SecretShare where
  /-- The actor's index. -/
  index : Int
  /-- The value of the polynomial at the point after the index. -/
  value : Int
deriving DecidableEq, Inhabited

namespace SecretShare

/-- The written form. -/
def toJson (s : SecretShare) : Json := .obj [("index", .int s.index), ("value", .int s.value)]

/-- Reads the written form; the index is not negative. -/
def ofJson : Json → Checked SecretShare :=
  Shape.record fun v => do
    let (index, value) ← (Shape.required "index" (Shape.intFrom 0) v).and
      (Shape.required "value" Shape.int v)
    .ok ⟨index, value⟩

/-- Reads the written form from bytes. -/
def ofBytes (data : Bytes) : Checked SecretShare := Shape.document ofJson data

end SecretShare

/-- An actor's answer to a ciphertext. -/
structure DecryptionShare where
  /-- The actor that answered. -/
  actor : Int
  /-- The encoded point. -/
  point : Bytes
  /-- The challenge of the proof. -/
  challenge : Bytes
  /-- The response of the proof. -/
  response : Bytes
deriving DecidableEq, Inhabited

namespace DecryptionShare

/-- Checks that the actor is not negative. -/
def check (s : DecryptionShare) : Checked DecryptionShare :=
  if s.actor < 0 then Checked.under (.field "actor_id") (Checked.fail (.below 0)) else .ok s

/-- The written form. -/
def toJson (s : DecryptionShare) : Json :=
  .obj [("actor_id", .int s.actor), ("share", KeySet.jsonBytes s.point),
    ("challenge", KeySet.jsonBytes s.challenge), ("response", KeySet.jsonBytes s.response)]

/-- Reads the written form. -/
def ofJson : Json → Checked DecryptionShare :=
  Shape.record fun v => do
    let (actor, point, challenge, response) ←
      (Shape.required "actor_id" (Shape.intFrom 0) v).and <|
      (Shape.required "share" Shape.bytes v).and <|
      (Shape.required "challenge" Shape.bytes v).and <|
      Shape.required "response" Shape.bytes v
    .ok ⟨actor, point, challenge, response⟩

/-- The written form as bytes. -/
def toBytes (s : DecryptionShare) : Bytes := Utf8.encode s.toJson.compact

/-- Reads the written form from bytes. -/
def ofBytes (data : Bytes) : Checked DecryptionShare := Shape.document ofJson data

end DecryptionShare

end Quorum
