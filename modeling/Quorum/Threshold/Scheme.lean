import Quorum.Cipher.Gcm
import Quorum.Hash.Hkdf
import Quorum.Table
import Quorum.Threshold.Share

/-!
# Threshold encryption

Dealing a key, encrypting to it, answering a ciphertext with a share, checking a share, and
combining enough shares into the payload. The payload is sealed under a key derived from `r · Y`,
where `Y` is the public key and `r · G` the ephemeral point; shares are `x · r · G` for the secret
shares `x`, and interpolation at zero in the exponent gives `r · Y` back.

## Main definitions

* `Threshold.generate` — a key set and one secret share for each party
* `Threshold.encrypt` — a ciphertext for a society key
* `Threshold.decryptShare` — the answer of a holder of a secret share
* `Threshold.verifyShare` — whether an answer is right
* `Threshold.combine` — the payload, from enough answers
* `Threshold.openWithSecret` — the payload, from the secret itself
* `Scheme` — the operations that a society needs, and `Scheme.elliptic`, the ones above
-/

namespace Quorum

namespace Threshold

/-- The dealt key set and secret shares for given coefficients. -/
def deal (parties : Nat) (coefficients : List Int) : Outcome (KeySet × List SecretShare) := do
  let commitments ← coefficients.mapM fun a => do
    let P ← Curve.p256.mulBase a
    Curve.compress P
  let keys ← (KeySet.ofParts (coefficients.length - 1) commitments).outcome
  let shares := (List.range parties).map fun (i : Nat) =>
    ⟨i, Sharing.evaluate coefficients (i + 1)⟩
  .ok (keys, shares)

/-- Deals a fresh key to `parties` holders, any `threshold` of whom learn nothing. The coefficients
of the sharing polynomial are selected by the draws `0` to `threshold`. -/
def generate (parties threshold : Int) (draw : Nat → Nat) : Outcome (KeySet × List SecretShare) :=
  if parties < 1 ∨ ¬(0 < threshold ∧ threshold < parties) then
    .error (.thresholdBounds threshold parties)
  else
    deal parties.toNat
      ((List.range (threshold.toNat + 1)).map fun (j : Nat) => (Scalar.ofDraw (draw j) : Int))

/-- The key of the sealed payload, derived from the shared point under the ephemeral point. -/
def payloadKey (shared : Point) (ephemeral : Bytes) : Outcome Bytes :=
  if shared = .infinity then .error (.value .identityShared)
  else do
    let secret ← Curve.compress shared
    .ok (hkdf ephemeral secret (Bytes.ascii "conclave/threshold/dem"))

/-- The random choices of one encryption. -/
structure Draws where
  /-- Selects the discrete logarithm of the ephemeral point. -/
  ephemeral : Nat
  /-- The nonce of the sealed payload. -/
  nonce : Bytes
  /-- Selects the discrete logarithm of the proof's commitment. -/
  proof : Nat

/-- Encrypts a message to a society. -/
def encrypt (key : SocietyKey) (message : Bytes) (draws : Draws) : Outcome Ciphertext := do
  let encoded ← key.publicKey
  let y ← decodePoint encoded
  let r := Scalar.ofDraw draws.ephemeral
  let u ← Curve.p256.mulBase r
  let ephemeral ← Curve.compress u
  let shared ← Curve.p256.mul r y
  let k ← payloadKey shared ephemeral
  -- The sealed payload and the proof below are both tied to the ephemeral point.
  let sealed := Gcm.encrypt k draws.nonce ephemeral message
  let s := Scalar.ofDraw draws.proof
  let commit ← Curve.p256.mulBase s
  let commitment ← Curve.compress commit
  let e ← Ciphertext.challengeFor ephemeral draws.nonce sealed commitment
  .ok ⟨ephemeral, draws.nonce, sealed, commitment, Scalar.toBytes (s + e * r)⟩

/-- The transcript of the proof of a decryption share. -/
def linkTranscript (publicShare point first second digest : Bytes) : Transcript :=
  ⟨Bytes.ascii "conclave/dleq", [publicShare, point, first, second, digest]⟩

/-- The transcript that the secret nonce of the proof is derived from. -/
def nonceTranscript (secret : Int) (digest : Bytes) : Transcript :=
  ⟨Bytes.ascii "conclave/dleq-nonce", [Scalar.toBytes secret, digest]⟩

/-- The answer for a secret `x` to a ciphertext with ephemeral point `u` and the given digest. -/
def answer (index x : Int) (u : Point) (digest : Bytes) : Outcome DecryptionShare := do
  let y ← Curve.p256.mulBase x
  let publicShare ← Curve.compress y
  let s ← Curve.p256.mul x u
  let point ← Curve.compress s
  -- The nonce of the proof is derived, so that equal inputs give equal answers.
  let drawn ← (nonceTranscript x digest).challenge
  let w := if drawn = 0 then 1 else drawn
  let a₁ ← Curve.p256.mulBase w
  let first ← Curve.compress a₁
  let a₂ ← Curve.p256.mul w u
  let second ← Curve.compress a₂
  let c ← (linkTranscript publicShare point first second digest).challenge
  (DecryptionShare.check ⟨index, point, Scalar.toBytes c, Scalar.toBytes (w + c * x)⟩).outcome

/-- The answer of the holder of a secret share to a ciphertext. -/
def decryptShare (secret : SecretShare) (c : Ciphertext) : Outcome DecryptionShare :=
  if ¬(0 < secret.value ∧ secret.value < order) then .error (.secretShare secret.index)
  else do
    let wellFormed ← c.verify
    if !wellFormed then .error .ciphertextProof
    else do
      let u ← decodePoint c.ephemeral
      let digest ← c.digest
      answer secret.index secret.value u digest

/-- The two commitments that a proof with challenge `c` and response `z` must have had, for the
public share `y`, the answered point `s` and the ephemeral point `u`. -/
def recompute (y s u : Point) (c z : Nat) : Except BadValue (Point × Point) := do
  -- With `z = w + c * x` both sums give back the multiples by `w`.
  let minus := (order : Int) - c
  let zG ← Curve.p256.mulBase z
  let cY ← Curve.p256.mul minus y
  let a₁ ← Curve.p256.add zG cY
  let zU ← Curve.p256.mul z u
  let cS ← Curve.p256.mul minus s
  let a₂ ← Curve.p256.add zU cS
  .ok (a₁, a₂)

/-- What a decryption share and a public share say, if all of it can be read: the public share, the
answered point, the ephemeral point, the challenge and the response. -/
def reading (share : DecryptionShare) (publicShare : Bytes) (c : Ciphertext) :
    Except BadValue (Point × Point × Point × Nat × Nat) := do
  let y ← decodePoint publicShare
  let s ← decodePoint share.point
  let u ← decodePoint c.ephemeral
  let challenge ← Scalar.ofBytes share.challenge
  let response ← Scalar.ofBytes share.response
  .ok (y, s, u, challenge, response)

/-- Whether a decryption share is the right answer of the holder with the given public share. -/
def verifyShare (share : DecryptionShare) (publicShare : Bytes) (c : Ciphertext) :
    Outcome Bool := do
  let wellFormed ← c.verify
  if !wellFormed then .ok false
  else
    match reading share publicShare c with
    -- What cannot be read is no right answer, rather than a fault of the one who asks.
    | .error _ => .ok false
    | .ok (y, s, u, challenge, response) => do
      let (a₁, a₂) ← recompute y s u challenge response
      if a₁ = .infinity ∨ a₂ = .infinity then .ok false
      else do
        let digest ← c.digest
        let expected ← (linkTranscript (← Curve.compress y) (← Curve.compress s)
          (← Curve.compress a₁) (← Curve.compress a₂) digest).challenge
        .ok (expected == challenge)

/-- Adds weighted shares up: for every chosen actor, the weight of its point times its share. -/
def interpolate (shares : Table Int DecryptionShare) (points : List Int) :
    Point → List Int → Except BadValue Point
  | acc, [] => .ok acc
  | acc, i :: rest => do
    -- Actor `i` holds the value of the polynomial at `i + 1`; the secret is its value at zero.
    let weight ← Sharing.lagrange (i + 1) points
    let P ← decodePoint ((shares.get? i).map DecryptionShare.point |>.getD [])
    let term ← Curve.p256.mul weight P
    let acc ← Curve.p256.add acc term
    interpolate shares points acc rest

/-- Opens the sealed payload of a ciphertext with the shared point. -/
def openPayload (shared : Point) (c : Ciphertext) : Outcome (Option Bytes) := do
  let key ← payloadKey shared c.ephemeral
  .ok (Gcm.decrypt? key c.nonce c.ephemeral c.sealed)

/-- The outcome of opening: a refused value and a wrong tag both mean that nothing was combined. -/
def opened : Outcome (Option Bytes) → Outcome Bytes
  | .ok (some m) => .ok m
  | .ok none => .error .notCombined
  | .error f => .error (if f.isBadValue then .notCombined else f)

/-- The actors whose shares are combined: the first ones in increasing order. -/
def chosen (shares : Table Int DecryptionShare) (need : Nat) : List Int :=
  (shares.keys.mergeSort fun i j => i ≤ j).take need

/-- The payload of a ciphertext, from one more answer than the threshold. -/
def combine (shares : Table Int DecryptionShare) (keys : KeySet) (c : Ciphertext) :
    Outcome Bytes :=
  let need := keys.threshold + 1
  if shares.size < need then .error (.insufficient shares.size need)
  else
    let actors := chosen shares need
    opened do
      let shared ← interpolate shares (actors.map (· + 1)) .infinity actors
      openPayload shared c

/-- The payload of a ciphertext, from the society's secret itself. -/
def openWithSecret (secret : Int) (c : Ciphertext) : Outcome Bytes :=
  opened do
    let u ← decodePoint c.ephemeral
    let shared ← Curve.p256.mul secret u
    openPayload shared c

end Threshold

/-- The operations of a threshold scheme that actors and meetings use. -/
structure Scheme where
  /-- The answer of the holder of a secret share to a ciphertext. -/
  decryptShare : SecretShare → Ciphertext → Outcome DecryptionShare
  /-- Whether an answer is right for a public share. -/
  verifyShare : DecryptionShare → Bytes → Ciphertext → Outcome Bool
  /-- The payload, from enough answers. -/
  combine : Table Int DecryptionShare → KeySet → Ciphertext → Outcome Bytes

/-- Threshold encryption on P-256. -/
def Scheme.elliptic : Scheme where
  decryptShare := Threshold.decryptShare
  verifyShare := Threshold.verifyShare
  combine := Threshold.combine

instance : Inhabited Scheme := ⟨Scheme.elliptic⟩

end Quorum
