import Quorum.Threshold.Scheme

/-!
# What setup hands out

Setup gives everyone the same public material, and each actor its own key share.

## Main definitions

* `Material` — a key set with the number of parties
* `KeyShare` — an actor's public and secret share
* `KeyShare.handOver` — the written form that includes the secret
-/

namespace Quorum

/-- The public outcome of setup. -/
structure Material where
  /-- The public key set. -/
  keys : KeySet
  /-- The number of shares that were dealt. -/
  parties : Nat
  /-- All parties together are more than the threshold. -/
  threshold_lt : keys.threshold < parties
deriving DecidableEq

namespace Material

/-- The number of shares that decrypt. -/
def quorum (m : Material) : Nat := m.keys.threshold + 1

/-- Checks the rules over valid fields: the threshold lies between zero and the number of parties
and is that of the key set. -/
def ofParts (keys : KeySet) (threshold parties : Int) : Checked Material :=
  if ¬(0 < threshold ∧ threshold < parties) then Checked.fail (.refused .societyBounds)
  else if h : (keys.threshold : Int) = threshold ∧ keys.threshold < parties.toNat then
    .ok ⟨keys, parties.toNat, h.2⟩
  else Checked.fail (.refused .otherThreshold)

/-- The written form. -/
def toJson (m : Material) : Json :=
  .obj [("public_keys", m.keys.toJson), ("threshold", .int m.keys.threshold),
    ("party_count", .int m.parties)]

/-- Reads the written form. -/
def ofJson : Json → Checked Material :=
  Shape.record fun v => do
    let (keys, threshold, parties) ← (Shape.required "public_keys" KeySet.ofJson v).and <|
      (Shape.required "threshold" Shape.int v).and <|
      Shape.required "party_count" Shape.int v
    ofParts keys threshold parties

/-- Reads the written form from bytes. -/
def ofBytes (data : Bytes) : Checked Material := Shape.document ofJson data

end Material

/-- One actor's share of the society key. -/
structure KeyShare where
  actor : Int
  /-- The encoded public share. -/
  publicShare : Bytes
  /-- The secret share. -/
  secret : SecretShare
deriving DecidableEq, Inhabited

namespace KeyShare

/-- The written form, which leaves the secret out. -/
def toJson (s : KeyShare) : Json :=
  .obj [("actor_id", .int s.actor), ("public_share", KeySet.jsonBytes s.publicShare)]

/-- The written form that includes the secret. -/
def secretJson (s : KeyShare) : Json :=
  .obj [("actor_id", .int s.actor), ("public_share", KeySet.jsonBytes s.publicShare),
    ("secret_share", s.secret.toJson)]

/-- The text that hands a share over to its holder. -/
def handOver (s : KeyShare) : String := s.secretJson.indented

/-- Reads the written form that includes the secret. -/
def ofJson : Json → Checked KeyShare :=
  Shape.record fun v => do
    let (actor, publicShare, secret) ← (Shape.required "actor_id" Shape.int v).and <|
      (Shape.required "public_share" Shape.bytes v).and <|
      Shape.required "secret_share" SecretShare.ofJson v
    .ok ⟨actor, publicShare, secret⟩

/-- Reads a share that was handed over. -/
def ofBytes (data : Bytes) : Checked KeyShare := Shape.document ofJson data

end KeyShare

end Quorum
