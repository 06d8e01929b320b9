import Quorum.Binary64

/-!
# Sums and products

The sum and the product of two finite numbers: the nearest number to the exact result.

## Main definitions

* `Binary64.add`, `Binary64.mul` — sum and product
* `Binary64.negate` — the number with the other sign
-/

namespace Quorum

namespace Binary64

/-- The number nearest to a quotient with a sign. -/
def ofQuotient (n : Int) (d : Nat) : Binary64 := ofRatio (n < 0) n.natAbs d

/-- The exact value of a finite number as a quotient with a sign. -/
def quotient? (x : Binary64) : Option (Int × Nat) :=
  x.ratio?.map fun (n, d) => (if x.isNegative then -(n : Int) else n, d)

/-- The sum of finite numbers; what is not finite gives no number. -/
def add (x y : Binary64) : Binary64 :=
  match x.quotient?, y.quotient? with
  | some (a, b), some (c, d) => ofQuotient (a * d + c * b) (b * d)
  | _, _ => nan false

/-- The product of finite numbers; what is not finite gives no number. -/
def mul (x y : Binary64) : Binary64 :=
  match x.quotient?, y.quotient? with
  | some (a, b), some (c, d) => ofQuotient (a * c) (b * d)
  | _, _ => nan false

/-- The number with the other sign. -/
def negate (x : Binary64) : Binary64 :=
  ofFields (!x.isNegative) (x.exponentField * Nat.pow 2 52 + x.fractionField)

end Binary64

end Quorum
