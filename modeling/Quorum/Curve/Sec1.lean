import Quorum.Bytes
import Quorum.Curve

/-!
# Encodings of points

Points as byte strings: a form byte, then the abscissa, then in the uncompressed form the ordinate.
The compressed form keeps only the parity of the ordinate in its form byte.

## Main definitions

* `Curve.compress` — the compressed form, 33 bytes
* `Curve.uncompress` — the uncompressed form of a point of the curve, 65 bytes
* `Curve.decode` — the point of either form
-/

namespace Quorum

namespace Curve

/-- A number as 32 bytes. -/
def fieldBytes (n : Int) : Outcome Bytes :=
  if n < 0 then .error .negative
  else if Nat.pow 256 32 ≤ n then .error .tooBig
  else .ok (Bytes.ofNat 32 n.toNat)

/-- The compressed form of a point. Nothing is checked but that the abscissa fits. -/
def compress (P : Point) : Outcome Bytes :=
  match P with
  | .infinity => .error (.value .identityEncoding)
  | .affine x y => do
    let b ← fieldBytes x
    .ok (UInt8.ofNat (2 + (y % 2).toNat) :: b)

/-- The bytes of the uncompressed form. -/
def uncompressedBytes (x y : Nat) : Bytes := 4 :: Bytes.ofNat 32 x ++ Bytes.ofNat 32 y

/-- The uncompressed form of a point, whose coordinates are reduced first. -/
def uncompress (E : Curve) (P : Point) : Except BadValue Bytes :=
  match P with
  | .infinity => .error .identityEncoding
  | .affine x y =>
    if x < 0 ∨ y < 0 then .error .negativeCoordinate
    else if !E.contains x y then .error .offCurve
    else .ok (uncompressedBytes (x % E.p).toNat (y % E.p).toNat)

/-- A square root of `n` modulo a prime that is three modulo four, if there is one. -/
def sqrt? (E : Curve) (n : Nat) : Option Nat :=
  let r := Arith.powMod E.p (n % E.p) ((E.p + 1) / 4)
  if r * r % E.p = n % E.p then some r else none

/-- The value of `x³ + a x + b`. -/
def rightSide (E : Curve) (x : Nat) : Nat := (x * x * x + E.a * x + E.b) % E.p

/-- The point with abscissa `x` and an ordinate of the given parity. -/
def lift? (E : Curve) (x : Nat) (odd : Bool) : Option Point :=
  match E.sqrt? (E.rightSide x) with
  | none => none
  | some r =>
    -- The two roots have different parities, unless the root is zero.
    let y := if (r % 2 == 1) == odd then r else (E.p - r) % E.p
    if (y % 2 == 1) == odd then some (.affine x y) else none

/-- The point that a byte string stands for, in either form. -/
def decode (E : Curve) (data : Bytes) : Except BadValue Point :=
  match data with
  | [] => .error .emptyPoint
  | form :: rest =>
    if form = 2 ∨ form = 3 then
      if rest.length = 32 ∧ Bytes.toNat rest < E.p then
        match E.lift? (Bytes.toNat rest) (form == 3) with
        | some P => .ok P
        | none => .error .invalidPoint
      else .error .invalidPoint
    else if form = 4 then
      let x := Bytes.toNat (rest.take 32)
      let y := Bytes.toNat (rest.drop 32)
      if rest.length = 64 ∧ x < E.p ∧ y < E.p ∧ E.contains x y then .ok (.affine x y)
      else .error .invalidPoint
    else .error .unknownPointForm

end Curve

end Quorum
