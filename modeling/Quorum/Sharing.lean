import Quorum.Scalar

/-!
# Sharing a secret with a polynomial

A secret is the constant coefficient of a polynomial over the scalars; a share is the value of the
polynomial at a point, and enough shares give the secret back by interpolation at zero.

## Main definitions

* `Sharing.evaluate` — the value of a polynomial at a point, modulo the order
* `Sharing.lagrange` — the weight of one point in the interpolation at zero
-/

namespace Quorum

namespace Sharing

/-- The value at `x` of the polynomial with the given coefficients, the constant one first. -/
def evaluate (coefficients : List Int) (x : Int) : Int :=
  coefficients.foldr (fun a value => (value * x + a) % order) 0

/-- The product over the points other than `x` of `f`, modulo the order. -/
def productOver (f : Int → Int) (x : Int) (points : List Int) : Int :=
  points.foldl (fun acc y => if y = x then acc else acc * f y % order) 1

/-- The weight of the point `x` among points in the interpolation at zero: the product of
`y / (y - x)` over the other points `y`. -/
def lagrange (x : Int) (points : List Int) : Except BadValue Int := do
  let inverse ← Curve.inverse (productOver (fun y => y - x) x points) order
  .ok (productOver (fun y => y) x points * inverse % order)

end Sharing

end Quorum
