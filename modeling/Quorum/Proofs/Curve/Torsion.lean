import Mathlib.FieldTheory.Finite.Basic
import Quorum.Proofs.Curve.Group

/-!
# A curve without a point of order two

A point of order two has the ordinate zero, so its abscissa is a root of the cubic of the curve.
A root `r` in the field satisfies `r ^ p = r`. Reduced modulo the cubic, `X ^ p - X` is a
quadratic; if it has an inverse modulo the cubic, the cubic has no root.

## Main definitions

* `Curve.Quadratic` — residues of polynomials modulo the cubic
* `Curve.Quadratic.power` — the residue of a power of the indeterminate
* `Curve.isRootFree` — whether a given quadratic is inverse to `X ^ p - X`

## Main results

* `Curve.cubic_ne_zero` — a curve that passes the check has no root
-/

namespace Quorum

namespace Curve

/-- The polynomial `c₀ + c₁ X + c₂ X²`. -/
structure Quadratic where
  c₀ : ℤ
  /-- The coefficient of the indeterminate. -/
  c₁ : ℤ
  /-- The coefficient of its square. -/
  c₂ : ℤ
deriving DecidableEq

namespace Quadratic

/-- The product modulo the cubic, where `X³` is `-a X - b`. -/
def mul (E : Curve) (u v : Quadratic) : Quadratic :=
  let d₃ := u.c₁ * v.c₂ + u.c₂ * v.c₁
  let d₄ := u.c₂ * v.c₂
  ⟨(u.c₀ * v.c₀ - E.b * d₃) % E.p,
    (u.c₀ * v.c₁ + u.c₁ * v.c₀ - E.a * d₃ - E.b * d₄) % E.p,
    (u.c₀ * v.c₂ + u.c₁ * v.c₁ + u.c₂ * v.c₀ - E.a * d₄) % E.p⟩

/-- The residue of `X ^ n`. -/
def power (E : Curve) (n : ℕ) : Quadratic :=
  if _ : n = 0 then ⟨1, 0, 0⟩
  else
    let half := power E (n / 2)
    let square := half.mul E half
    if n % 2 = 1 then square.mul E ⟨0, 1, 0⟩ else square
termination_by n
decreasing_by omega

/-- The value at an element of the field. -/
def eval {E : Curve} (u : Quadratic) (r : ZMod E.p) : ZMod E.p := u.c₀ + u.c₁ * r + u.c₂ * r ^ 2

variable {E : Curve} {r : ZMod E.p}

/-- At a root of the cubic the product of residues has the product of the values. -/
theorem eval_mul (root : r ^ 3 + E.a * r + E.b = 0) (u v : Quadratic) :
    (u.mul E v).eval r = u.eval r * v.eval r := by
  simp only [mul, eval]
  push_cast [ZMod.intCast_mod]
  linear_combination (-((u.c₁ : ZMod E.p) * v.c₂ + u.c₂ * v.c₁) - u.c₂ * v.c₂ * r) * root

/-- At a root of the cubic the residue of a power has the power as its value. -/
theorem eval_power (root : r ^ 3 + E.a * r + E.b = 0) (n : ℕ) : (power E n).eval r = r ^ n := by
  induction n using Nat.strongRecOn with
  | ind n ih =>
    rw [power]
    split
    · next zero => simp [zero, eval]
    · next nonzero =>
      have half := ih (n / 2) (by omega)
      have square : ((power E (n / 2)).mul E (power E (n / 2))).eval r = r ^ (2 * (n / 2)) := by
        rw [eval_mul root, half, ← pow_add, two_mul]
      simp only
      split
      · next odd =>
        have indeterminate : (⟨0, 1, 0⟩ : Quadratic).eval r = r := by simp [eval]
        rw [eval_mul root, square, indeterminate, ← pow_succ, show 2 * (n / 2) + 1 = n by omega]
      · next even => rw [square, show 2 * (n / 2) = n by omega]

end Quadratic

/-- Whether a quadratic is inverse to `X ^ p - X` modulo the cubic. -/
def isRootFree (E : Curve) (inverse : Quadratic) : Bool :=
  let q := Quadratic.power E E.p
  inverse.mul E { q with c₁ := q.c₁ - 1 } == ⟨1, 0, 0⟩

/-- A curve that passes the check has no root. -/
theorem cubic_ne_zero {E : Curve} [Fact E.p.Prime] (inverse : Quadratic)
    (passed : E.isRootFree inverse = true) (r : ZMod E.p) : r ^ 3 + E.a * r + E.b ≠ 0 := by
  intro root
  have product := congrArg (fun u => Quadratic.eval u r) (beq_iff_eq.mp passed)
  have fixed := Quadratic.eval_power root E.p
  -- A root in the field is fixed by the Frobenius map.
  have vanishes : Quadratic.eval { Quadratic.power E E.p with
      c₁ := (Quadratic.power E E.p).c₁ - 1 } r = 0 := by
    rw [ZMod.pow_card] at fixed
    simp only [Quadratic.eval] at fixed ⊢
    push_cast
    linear_combination fixed
  simp only [Quadratic.eval_mul root, vanishes, mul_zero] at product
  simp [Quadratic.eval] at product

end Curve

end Quorum
