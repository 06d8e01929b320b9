import Quorum.Arith.Inverse
import Quorum.Fault

/-!
# Elliptic curves in short Weierstrass form

A curve `y² = x³ + a x + b` over a prime field with a base point, and the operations on its points
in affine coordinates. Coordinates are integers and are not reduced on the way in: adding points
whose difference of abscissae is a multiple of the field prime has no slope and fails.

## Main definitions

* `Curve` — the constants of a curve; `Curve.p256` and `Curve.k256` are the two curves in use
* `Point` — the point at infinity or a pair of coordinates
* `Curve.neg`, `Curve.add`, `Curve.mul` — negation, addition and multiplication by a scalar
* `Curve.mulBase` — multiplication of the base point, through public points of secrets
* `Curve.Reduced` — being the point at infinity or a point of the curve with reduced coordinates
-/

namespace Quorum

/-- The constants of a curve `y² = x³ + a x + b` over the field of `p` elements, whose base point
`(gx, gy)` has the given order. -/
structure Curve where
  /-- The name under which the curve is configured. -/
  name : String
  /-- The field prime. -/
  p : Nat
  /-- The coefficient of `x`. -/
  a : Nat
  /-- The constant coefficient. -/
  b : Nat
  /-- The abscissa of the base point. -/
  gx : Nat
  /-- The ordinate of the base point. -/
  gy : Nat
  /-- The order of the base point. -/
  order : Nat
deriving DecidableEq, Repr

/-- A point given by affine coordinates, or the point at infinity. -/
inductive Point where
  /-- The neutral element. -/
  | infinity
  /-- A pair of coordinates. -/
  | affine (x y : Int)
deriving DecidableEq, Repr, Inhabited

namespace Curve

/-- The curve P-256. -/
def p256 : Curve where
  name := "secp256r1"
  p := 0xffffffff00000001000000000000000000000000ffffffffffffffffffffffff
  a := 0xffffffff00000001000000000000000000000000fffffffffffffffffffffffc
  b := 0x5ac635d8aa3a93e7b3ebbd55769886bc651d06b0cc53b0f63bce3c3e27d2604b
  gx := 0x6b17d1f2e12c4247f8bce6e563a440f277037d812deb33a0f4a13945d898c296
  gy := 0x4fe342e2fe1a7f9b8ee7eb4a7c0f9e162bce33576b315ececbb6406837bf51f5
  order := 0xffffffff00000000ffffffffffffffffbce6faada7179e84f3b9cac2fc632551

/-- The Koblitz curve of the same size. -/
def k256 : Curve where
  name := "secp256k1"
  p := 0xfffffffffffffffffffffffffffffffffffffffffffffffffffffffefffffc2f
  a := 0
  b := 7
  gx := 0x79be667ef9dcbbac55a06295ce870b07029bfcdb2dce28d959f2815b16f81798
  gy := 0x483ada7726a3c4655da4fbfc0e1108a8fd17b448a68554199c47d08ffb10d4b8
  order := 0xfffffffffffffffffffffffffffffffebaaedce6af48a03bbfd25e8cd0364141

/-- The base point. -/
def base (E : Curve) : Point := .affine E.gx E.gy

/-- Whether coordinates satisfy the equation of the curve. -/
def contains (E : Curve) (x y : Int) : Bool :=
  (y * y - (x * x * x + E.a * x + E.b)) % E.p == 0

/-- The point at infinity and the points of the curve whose coordinates lie in `[0, p)`. -/
def Reduced (E : Curve) : Point → Prop
  | .infinity => True
  | .affine x y => 0 ≤ x ∧ x < E.p ∧ 0 ≤ y ∧ y < E.p ∧ E.contains x y = true

instance (E : Curve) (P : Point) : Decidable (E.Reduced P) := by
  cases P <;> unfold Reduced <;> infer_instance

/-- The inverse of `a` modulo `m`. -/
def inverse (a m : Int) : Except BadValue Int :=
  match Arith.inverse? a m with
  | .ok r => .ok r
  | .error .zeroModulus => .error .zeroModulus
  | .error .notInvertible => .error .notInvertible

/-- The opposite point: the same abscissa, the negated ordinate. -/
def neg (E : Curve) : Point → Point
  | .infinity => .infinity
  | .affine x y => .affine x (-y % E.p)

/-- The third point on the line of slope `l` through the points with abscissae `x₁` and `x₂`,
reflected at the axis. -/
def chord (E : Curve) (l x₁ y₁ x₂ : Int) : Point :=
  let x := (l * l - x₁ - x₂) % E.p
  .affine x ((l * (x₁ - x) - y₁) % E.p)

/-- The sum of two points. -/
def add (E : Curve) : Point → Point → Except BadValue Point
  | .infinity, Q => .ok Q
  | P, .infinity => .ok P
  | .affine x₁ y₁, .affine x₂ y₂ =>
    if x₁ = x₂ then
      if (y₁ + y₂) % E.p = 0 then .ok .infinity
      -- The slope of the tangent. A vertical tangent has no slope to invert.
      else do
        let i ← inverse (2 * y₁) E.p
        .ok (E.chord ((3 * x₁ * x₁ + E.a) * i % E.p) x₁ y₁ x₂)
    else do
      let i ← inverse (x₂ - x₁) E.p
      .ok (E.chord ((y₂ - y₁) * i % E.p) x₁ y₁ x₂)

/-- `n` times a point, by doubling and adding along the binary digits of `n`. -/
def mulNat (E : Curve) (P : Point) (n : Nat) : Except BadValue Point :=
  if _ : n = 0 then .ok .infinity
  else do
    -- The leading digits first: the multiple so far is doubled, then the point is added.
    let half ← E.mulNat P (n / 2)
    let twice ← E.add half half
    if n % 2 = 1 then E.add twice P else .ok twice
termination_by n
decreasing_by omega

/-- `k` times a point; only `k` modulo the order counts. -/
def mul (E : Curve) (k : Int) (P : Point) : Except BadValue Point :=
  let n := (k % E.order).toNat
  if n = 0 ∨ P = .infinity then .ok .infinity else E.mulNat P n

/-- The public point of a secret `n` between zero and the order: `n` times the base point. -/
def publicPoint (E : Curve) (n : Nat) : Except BadValue Point := E.mulNat E.base n

/-- `k` times the base point, by a function that gives the public points of secrets. It is asked
for what `k` is modulo the order, unless that is zero. -/
def mulBaseBy (E : Curve) (derive : Nat → Except BadValue Point) (k : Int) :
    Except BadValue Point :=
  let n := (k % E.order).toNat
  if n = 0 then .ok .infinity else derive n

/-- `k` times the base point. -/
def mulBase (E : Curve) (k : Int) : Except BadValue Point := E.mulBaseBy E.publicPoint k

end Curve

end Quorum
