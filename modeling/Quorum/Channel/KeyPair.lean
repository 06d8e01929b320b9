import Quorum.Curve.Sec1

/-!
# Key pairs and key agreement

A channel is keyed by the agreement of two key pairs on one curve: the abscissa of the product of
one side's secret and the other side's point, which both sides can compute.

## Main definitions

* `ChannelCurve` — the curves that channels may use
* `KeyPair` — a secret with its point
* `KeyPair.ofSecret`, `KeyPair.ofDraw` — the pair of a given secret, and of a drawn one
* `KeyPair.agree` — the shared secret with a public key
-/

namespace Quorum

/-- The curves that channels may use. -/
inductive ChannelCurve where
  /-- The Koblitz curve. -/
  | k256
  | p256
deriving DecidableEq, Repr, Inhabited

namespace ChannelCurve

/-- The constants of a curve. -/
def curve : ChannelCurve → Curve
  | k256 => Curve.k256
  | p256 => Curve.p256

/-- The name under which a curve is configured. -/
def name (c : ChannelCurve) : String := c.curve.name

/-- The names in the order in which they are listed. -/
def all : List ChannelCurve := [k256, p256]

/-- The curve with a given name. -/
def ofName? (s : String) : Option ChannelCurve := all.find? fun c => c.name == s

end ChannelCurve

/-- A secret with its point. -/
structure KeyPair where
  /-- The curve of the pair. -/
  curve : ChannelCurve
  /-- The secret scalar. -/
  secret : Int
  /-- The public point: the secret times the base point. -/
  point : Point
deriving DecidableEq, Inhabited

namespace KeyPair

/-- The key pair of a secret, which lies between zero and the order of the curve. -/
def ofSecret (curve : ChannelCurve) (secret : Int) : Except BadValue KeyPair :=
  if secret ≤ 0 then .error .secretNotPositive
  else if curve.curve.order ≤ secret then .error .secretRange
  else do
    let P ← curve.curve.mulBase secret
    .ok ⟨curve, secret, P⟩

/-- The key pair whose secret is selected by a draw. -/
def ofDraw (curve : ChannelCurve) (v : Nat) : Except BadValue KeyPair :=
  ofSecret curve (v % (curve.curve.order - 1) + 1 : Nat)

/-- The public key in uncompressed form. -/
def publicBytes (k : KeyPair) : Bytes :=
  match k.point with
  | .infinity => []
  | .affine x y => Curve.uncompressedBytes x.toNat y.toNat

/-- The shared secret with a point: the abscissa of the product, as 32 bytes. -/
def sharedWith (k : KeyPair) (peer : Point) : Except BadValue Bytes := do
  match ← k.curve.curve.mul k.secret peer with
  | .infinity => .error .otherCurve
  | .affine x _ => .ok (Bytes.ofNat 32 x.toNat)

/-- The shared secret with an encoded public key on the same curve. -/
def agree (k : KeyPair) (peer : Bytes) : Except BadValue Bytes := do
  let P ← k.curve.curve.decode peer
  k.sharedWith P

/-- The shared secret with the public key of another pair. -/
def agreeWith (k l : KeyPair) : Except BadValue Bytes :=
  if k.curve = l.curve then k.sharedWith l.point else .error .otherCurve

/-- What a key pair is shown as: its curve and the start of its public key. -/
def shown (k : KeyPair) : String :=
  "EcdhKeyPair(curve=" ++ Quoted.encode k.curve.name ++ ", public=" ++
    String.ofList ((Bytes.hexChars k.publicBytes).take 16) ++ "...)"

end KeyPair

end Quorum
