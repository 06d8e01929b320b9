import Quorum.Threshold.KeySet

/-!
# Ciphertexts

A payload sealed for a society: an ephemeral point, the sealed payload, and a proof that the sender
knows the discrete logarithm of the ephemeral point. The proof is bound to the sealed payload.

## Main definitions

* `Ciphertext` — the fields of a ciphertext
* `Ciphertext.digest` — the hash over all fields
* `Ciphertext.challenge` — the challenge of the proof
* `Ciphertext.proofHolds` — the equation that a right proof satisfies
* `Ciphertext.verify` — whether the proof holds
-/

namespace Quorum

/-- A payload sealed for a society. -/
structure Ciphertext where
  /-- The encoded point `r · G`. -/
  ephemeral : Bytes
  /-- The nonce of the sealed payload. -/
  nonce : Bytes
  /-- The sealed payload. -/
  sealed : Bytes
  /-- The encoded commitment of the proof. -/
  commitment : Bytes
  /-- The response of the proof. -/
  response : Bytes
deriving DecidableEq, Inhabited

namespace Ciphertext

/-- The byte string that is hashed: every field behind its length. -/
def framing (c : Ciphertext) : Outcome Bytes :=
  frameAll [c.ephemeral, c.nonce, c.sealed, c.commitment, c.response]

/-- The hash over all fields, which binds shares to this ciphertext. -/
def digest (c : Ciphertext) : Outcome Bytes := do
  let b ← c.framing
  .ok (sha256 b)

/-- The challenge of the proof for a sealed payload and a commitment. -/
def challengeFor (ephemeral nonce sealed commitment : Bytes) : Outcome Nat :=
  Transcript.challenge ⟨Bytes.ascii "conclave/ciphertext", [ephemeral, nonce, sealed, commitment]⟩

/-- The challenge of the proof. -/
def challenge (c : Ciphertext) : Outcome Nat :=
  challengeFor c.ephemeral c.nonce c.sealed c.commitment

/-- The ephemeral point, the committed point and the response, if all can be read. -/
def opening (c : Ciphertext) : Except BadValue (Point × Point × Nat) := do
  let u ← decodePoint c.ephemeral
  let r ← decodePoint c.commitment
  let z ← Scalar.ofBytes c.response
  .ok (u, r, z)

/-- The equation of the proof: `z · G = R + e · U`. -/
def proofHolds (u r : Point) (e z : Int) : Except BadValue Bool := do
  let left ← Curve.p256.mulBase z
  let shifted ← Curve.p256.mul e u
  let right ← Curve.p256.add r shifted
  .ok (left == right)

/-- Whether the proof holds; it does not when a field cannot be read. -/
def verify (c : Ciphertext) : Outcome Bool :=
  match c.opening with
  | .error _ => .ok false
  | .ok (u, r, z) => do
    let e ← c.challenge
    proofHolds u r e z

/-- The written form. -/
def toJson (c : Ciphertext) : Json :=
  .obj [("ephemeral", KeySet.jsonBytes c.ephemeral), ("nonce", KeySet.jsonBytes c.nonce),
    ("sealed", KeySet.jsonBytes c.sealed), ("proof_commitment", KeySet.jsonBytes c.commitment),
    ("proof_response", KeySet.jsonBytes c.response)]

/-- Reads the written form. -/
def ofJson : Json → Checked Ciphertext :=
  Shape.record fun v => do
    let (ephemeral, nonce, sealed, commitment, response) ←
      (Shape.required "ephemeral" Shape.bytes v).and <|
      (Shape.required "nonce" Shape.bytes v).and <|
      (Shape.required "sealed" Shape.bytes v).and <|
      (Shape.required "proof_commitment" Shape.bytes v).and <|
      Shape.required "proof_response" Shape.bytes v
    .ok ⟨ephemeral, nonce, sealed, commitment, response⟩

/-- The written form as bytes. -/
def toBytes (c : Ciphertext) : Bytes := Utf8.encode c.toJson.compact

/-- Reads the written form from bytes. -/
def ofBytes (data : Bytes) : Checked Ciphertext := Shape.document ofJson data

end Ciphertext

end Quorum
