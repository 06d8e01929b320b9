import Quorum.Curve.Sec1
import Quorum.Shape
import Quorum.Sharing

/-!
# The public key set of a society

The commitments to the coefficients of the sharing polynomial: points whose discrete logarithms are
the coefficients. The first commitment is the society's public key, and the public share of every
actor can be computed from all of them.

## Main definitions

* `KeySet` — a threshold with one more commitment than its value, each an encoded point
* `KeySet.ofParts` — checks the rules of a key set
* `KeySet.publicKey` — the society's public key
* `KeySet.publicShare` — the public share of an actor
* `KeySet.toJson` / `KeySet.ofJson` — the written form and its reader
* `SocietyKey` — the forms in which a public key is handed to those who encrypt
-/

namespace Quorum

/-- The point that bytes on P-256 stand for. -/
abbrev decodePoint (data : Bytes) : Except BadValue Point := Curve.p256.decode data

/-- Whether bytes stand for a point on P-256. -/
def isPoint (data : Bytes) : Bool := (decodePoint data).isOk

/-- The public half of a dealt key. -/
structure KeySet where
  /-- The largest number of shares that reveal nothing. -/
  threshold : Nat
  /-- The encoded commitments, the one to the secret first. -/
  commitments : List Bytes
  /-- At least one share reveals nothing. -/
  threshold_pos : 1 ≤ threshold
  /-- One commitment for each coefficient. -/
  length_commitments : commitments.length = threshold + 1
  /-- Every commitment is a point. -/
  isPoint_commitments : ∀ c ∈ commitments, isPoint c = true
deriving DecidableEq

namespace KeySet

/-- Checks that every commitment is a point; the first that is not is reported. -/
def checkPoints (commitments : List Bytes) : Checked Unit :=
  match commitments.findSome? fun c =>
    match decodePoint c with
    | .ok _ => none
    | .error e => some e with
  | none => .ok ()
  | some e => Checked.fail (.refused e)

/-- Checks the rules of a key set over valid fields. -/
def ofParts (threshold : Int) (commitments : List Bytes) : Checked KeySet :=
  if h : 1 ≤ threshold.toNat ∧ commitments.length = threshold.toNat + 1 ∧
      ∀ c ∈ commitments, isPoint c = true then
    .ok ⟨threshold.toNat, commitments, h.1, h.2.1, h.2.2⟩
  else Checked.fail (.refused (.commitmentCount (threshold + 1) commitments.length))

/-- The society's public key. -/
def publicKey (s : KeySet) : Bytes := s.commitments.headD []

/-- The sum of `x ^ j` times the `j`-th commitment, where `power` is the power for the first. -/
def combineAt (x power : Int) : Point → List Bytes → Except BadValue Point
  | acc, [] => .ok acc
  | acc, c :: cs => do
    let P ← decodePoint c
    let term ← Curve.p256.mul power P
    let acc ← Curve.p256.add acc term
    combineAt x (power * x % order) acc cs

/-- The public share of an actor: the point whose discrete logarithm is the actor's share. -/
def publicShare (s : KeySet) (index : Int) : Outcome Bytes :=
  if index < 0 then .error (.value .negativeIndex)
  else do
    let P ← combineAt (index + 1) 1 .infinity s.commitments
    Curve.compress P

/-- Bytes as a written value. -/
def jsonBytes (b : Bytes) : Json := .str (Base64.encode b)

/-- The written form. -/
def toJson (s : KeySet) : Json :=
  .obj [("threshold", .int s.threshold), ("commitments", .arr (s.commitments.map jsonBytes))]

/-- A list of encoded points. -/
def points (v : Json) : Checked (List Bytes) := do
  let cs ← Shape.list Shape.bytes v
  checkPoints cs
  .ok cs

/-- Reads the written form. -/
def ofJson : Json → Checked KeySet :=
  Shape.record fun v => do
    let (t, cs) ← Checked.and (Shape.required "threshold" (Shape.intFrom 1) v)
      (Shape.required "commitments" points v)
    ofParts t cs

/-- The key set as it is published. -/
def toBytes (s : KeySet) : Bytes := Utf8.encode s.toJson.compact

/-- Reads a published key set. -/
def ofBytes (data : Bytes) : Checked KeySet := Shape.document ofJson data

end KeySet

/-- The forms in which a public key is handed to those who encrypt. -/
inductive SocietyKey where
  /-- The key set itself. -/
  | set (keys : KeySet)
  /-- The key set as published, or only the encoded public key. -/
  | bytes (data : Bytes)

namespace SocietyKey

/-- The encoded public key: 33 bytes are taken as the key, all else is read as a key set. -/
def publicKey : SocietyKey → Outcome Bytes
  | set keys => .ok keys.publicKey
  | bytes data =>
    if data.length = 33 then .ok data else (KeySet.ofBytes data).outcome.map KeySet.publicKey

end SocietyKey

end Quorum
