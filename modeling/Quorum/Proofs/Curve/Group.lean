import Mathlib.AlgebraicGeometry.EllipticCurve.Affine.Point
import Mathlib.Algebra.Group.TransferInstance
import Mathlib.Tactic.FieldSimp
import Quorum.Proofs.Arith.Inverse

/-!
# The points of a smooth curve form a group

Over a prime field of odd characteristic, a curve without a singular point carries the group law
of elliptic curves. The reduced points correspond to the points of the abstract curve, and through
this correspondence adding coordinates never fails and is the addition of the group.

## Main definitions

* `Curve.Smooth` — the field is prime and odd, and the discriminant does not vanish
* `Curve.Element` — the reduced points, a commutative group

## Main results

* `Curve.add_point` — adding coordinates is the addition of the group
* `Curve.neg_point` — negating coordinates is the negation of the group
* `Curve.mulNat_point`, `Curve.mul_point` — doubling and adding is iterated addition
-/

namespace Quorum

namespace Curve

/-- A curve over an odd prime field without a singular point. -/
class Smooth (E : Curve) : Prop where
  /-- The field is prime. -/
  prime : E.p.Prime
  /-- The field is odd. -/
  odd : 2 < E.p
  /-- The discriminant does not vanish. -/
  discriminant : (4 * E.a ^ 3 + 27 * E.b ^ 2) % E.p ≠ 0

/-- The reduced points of a curve. -/
@[ext] structure Element (E : Curve) where
  /-- The coordinates. -/
  point : Point
  /-- The coordinates lie on the curve and are reduced. -/
  reduced : E.Reduced point

variable {E : Curve}

instance : DecidableEq E.Element := fun P Q =>
  decidable_of_iff (P.point = Q.point) Element.ext_iff.symm

instance [smooth : E.Smooth] : Fact E.p.Prime := ⟨smooth.prime⟩

/-- The abstract curve over the field of coordinates. -/
def weierstrass (E : Curve) : WeierstrassCurve.Affine (ZMod E.p) := ⟨0, 0, 0, E.a, E.b⟩

/-- The equation of the abstract curve. -/
theorem equation_iff {x y : ZMod E.p} :
    E.weierstrass.Equation x y ↔ y ^ 2 = x ^ 3 + E.a * x + E.b := by
  rw [WeierstrassCurve.Affine.equation_iff]
  simp [weierstrass]

/-- Whether coordinates satisfy the equation depends on their residues only. -/
theorem contains_iff {x y : ℤ} :
    E.contains x y = true ↔ E.weierstrass.Equation (x : ZMod E.p) (y : ZMod E.p) := by
  rw [contains, beq_iff_eq, equation_iff, ← Int.dvd_iff_emod_eq_zero,
    ← ZMod.intCast_zmod_eq_zero_iff_dvd]
  push_cast
  rw [sub_eq_zero, pow_two, pow_three']

section Group

variable [E.Smooth]

theorem two_ne_zero_of_smooth : (2 : ZMod E.p) ≠ 0 := by
  have small : ¬ E.p ∣ 2 := fun divides =>
    absurd (Nat.le_of_dvd (by omega) divides) (not_le.mpr Smooth.odd)
  exact_mod_cast (ZMod.natCast_eq_zero_iff 2 E.p).not.mpr small

/-- The abstract curve is an elliptic curve. -/
theorem discriminant_ne_zero : E.weierstrass.Δ ≠ 0 := by
  have factored : E.weierstrass.Δ = -2 ^ 4 * ((4 * E.a ^ 3 + 27 * E.b ^ 2 : ℕ) : ZMod E.p) := by
    simp only [weierstrass, WeierstrassCurve.Δ, WeierstrassCurve.b₂, WeierstrassCurve.b₄,
      WeierstrassCurve.b₆, WeierstrassCurve.b₈]
    push_cast
    ring
  rw [factored]
  refine mul_ne_zero (neg_ne_zero.mpr (pow_ne_zero 4 two_ne_zero_of_smooth)) fun vanishes => ?_
  exact Smooth.discriminant (E := E)
    (Nat.mod_eq_zero_of_dvd ((ZMod.natCast_eq_zero_iff _ _).mp vanishes))

theorem nonsingular_iff {x y : ZMod E.p} :
    E.weierstrass.Nonsingular x y ↔ E.weierstrass.Equation x y :=
  (WeierstrassCurve.Affine.equation_iff_nonsingular_of_Δ_ne_zero discriminant_ne_zero).symm

/-- The point of the abstract curve with the residues of given coordinates. -/
def Element.toGroup : E.Element → E.weierstrass.Point
  | ⟨.infinity, _⟩ => 0
  | ⟨.affine x y, reduced⟩ => .some x y (nonsingular_iff.mpr (contains_iff.mp reduced.2.2.2.2))

/-- The coordinates of the least residues of a point of the abstract curve. -/
def Element.ofGroup : E.weierstrass.Point → E.Element
  | .zero => ⟨.infinity, trivial⟩
  | .some x y onCurve => ⟨.affine x.val y.val, by
      refine ⟨by positivity, by exact_mod_cast x.val_lt, by positivity,
        by exact_mod_cast y.val_lt, contains_iff.mpr ?_⟩
      simpa using nonsingular_iff.mp onCurve⟩

/-- The reduced points are the points of the abstract curve. -/
def Element.equiv : E.Element ≃ E.weierstrass.Point where
  toFun := toGroup
  invFun := ofGroup
  left_inv := by
    rintro ⟨_ | ⟨x, y⟩, reduced⟩
    · rfl
    · obtain ⟨x_nonneg, x_lt, y_nonneg, y_lt, -⟩ := reduced
      ext
      simp only [toGroup, ofGroup, ZMod.val_intCast, Int.emod_eq_of_lt x_nonneg x_lt,
        Int.emod_eq_of_lt y_nonneg y_lt]
  right_inv := by
    rintro (_ | ⟨x, y, onCurve⟩)
    · rfl
    · simp [toGroup, ofGroup]

noncomputable instance : AddCommGroup E.Element := Element.equiv.addCommGroup

@[simp] theorem Element.point_zero : (0 : E.Element).point = .infinity := rfl

theorem Element.eq_zero_iff {P : E.Element} : P = 0 ↔ P.point = .infinity :=
  Element.ext_iff

theorem Element.equiv_nsmul (n : ℕ) (P : E.Element) :
    Element.equiv (n • P) = n • Element.equiv P :=
  map_nsmul Element.equiv.addEquiv n P

/-- Coordinates that solve the equation give a reduced point once they are reduced. -/
theorem Element.ofGroup_some {x y : ℤ} {u v : ZMod E.p} (first : (x : ZMod E.p) = u)
    (second : (y : ZMod E.p) = v) (onCurve : E.weierstrass.Nonsingular u v) :
    (ofGroup (.some u v onCurve)).point = .affine (x % E.p) (y % E.p) := by
  subst first second
  simp only [ofGroup, ZMod.val_intCast]

/-- Reduced numbers with the same residue are equal. -/
theorem eq_of_cast_eq {x y : ℤ} (x_nonneg : 0 ≤ x) (x_lt : x < E.p) (y_nonneg : 0 ≤ y)
    (y_lt : y < E.p) (same : (x : ZMod E.p) = y) : x = y := by
  rw [ZMod.intCast_eq_intCast_iff'] at same
  rwa [Int.emod_eq_of_lt x_nonneg x_lt, Int.emod_eq_of_lt y_nonneg y_lt] at same

/-- The chord of a slope has the coordinates that the formulae of the group give. -/
theorem chord_eq {l x₁ y₁ x₂ : ℤ} {s : ZMod E.p} (slope : (l : ZMod E.p) = s)
    (onCurve : E.weierstrass.Nonsingular (E.weierstrass.addX (x₁ : ZMod E.p) x₂ s)
      (E.weierstrass.addY (x₁ : ZMod E.p) x₂ y₁ s)) :
    E.chord l x₁ y₁ x₂ = (Element.ofGroup (.some _ _ onCurve)).point := by
  subst slope
  refine (Element.ofGroup_some ?_ ?_ onCurve).symm
  · simp [weierstrass, pow_two]
  · push_cast [ZMod.intCast_mod]
    simp only [weierstrass, WeierstrassCurve.Affine.addX, WeierstrassCurve.Affine.addY,
      WeierstrassCurve.Affine.negAddY, WeierstrassCurve.Affine.negY]
    ring

/-- Points of one abscissa are opposite exactly when their ordinates add up to zero. -/
private theorem opposite_iff (x : ZMod E.p) (y₁ y₂ : ℤ) :
    (y₁ + y₂) % (E.p : ℤ) = 0 ↔ (y₁ : ZMod E.p) = E.weierstrass.negY x y₂ := by
  rw [← Int.dvd_iff_emod_eq_zero, ← ZMod.intCast_zmod_eq_zero_iff_dvd]
  simp [weierstrass, eq_neg_iff_add_eq_zero]

section Affine

open WeierstrassCurve.Affine

variable {x₁ y₁ x₂ y₂ : ℤ}

/-- Points of different abscissae are added along their secant. -/
private theorem add_secant (on₁ : E.weierstrass.Nonsingular (x₁ : ZMod E.p) y₁)
    (on₂ : E.weierstrass.Nonsingular (x₂ : ZMod E.p) y₂) (different : (x₁ : ZMod E.p) ≠ x₂) :
    E.add (.affine x₁ y₁) (.affine x₂ y₂) =
      .ok (Element.ofGroup (.some _ _ on₁ + .some _ _ on₂ : E.weierstrass.Point)).point := by
  have apart : ((x₂ - x₁ : ℤ) : ZMod E.p) ≠ 0 := by
    exact_mod_cast sub_ne_zero.mpr different.symm
  obtain ⟨i, isOk, isInverse⟩ := inverse_eq_ok apart
  have notSame : x₁ ≠ x₂ := fun same => different (by rw [same])
  rw [Point.add_of_X_ne different]
  simp only [add, notSame, if_false, isOk]
  refine congrArg Except.ok (chord_eq ?_ _)
  rw [slope_of_X_ne different]
  push_cast [ZMod.intCast_mod, isInverse]
  rw [← neg_sub (y₁ : ZMod E.p), ← neg_sub (x₁ : ZMod E.p), inv_neg, neg_mul_neg, div_eq_mul_inv]

/-- Points of one abscissa that are not opposite are equal and are doubled along their tangent. -/
private theorem add_tangent (on₁ : E.weierstrass.Nonsingular (x₁ : ZMod E.p) y₁)
    (on₂ : E.weierstrass.Nonsingular (x₁ : ZMod E.p) y₂) (notOpposite : (y₁ + y₂) % (E.p : ℤ) ≠ 0) :
    E.add (.affine x₁ y₁) (.affine x₁ y₂) =
      .ok (Element.ofGroup (.some _ _ on₁ + .some _ _ on₂ : E.weierstrass.Point)).point := by
  have different := (opposite_iff (x₁ : ZMod E.p) y₁ y₂).not.mp notOpposite
  have same : (y₁ : ZMod E.p) = y₂ := Y_eq_of_Y_ne on₁.left on₂.left rfl different
  have twice : (y₁ : ZMod E.p) - E.weierstrass.negY (x₁ : ZMod E.p) y₁ = 2 * y₁ := by
    simp [weierstrass]
    ring
  -- A point that is not its own opposite has no vertical tangent.
  have vertical : ((2 * y₁ : ℤ) : ZMod E.p) ≠ 0 := by
    push_cast
    rw [← twice]
    exact sub_ne_zero.mpr (by rwa [← same] at different)
  obtain ⟨i, isOk, isInverse⟩ := inverse_eq_ok vertical
  rw [Point.add_of_Y_ne different]
  simp only [add, notOpposite, if_true, if_false, isOk]
  refine congrArg Except.ok (chord_eq ?_ _)
  rw [slope_of_Y_ne rfl different, twice]
  push_cast [ZMod.intCast_mod, isInverse]
  rw [div_eq_mul_inv]
  simp only [weierstrass]
  ring

end Affine

/-- Adding coordinates never fails and is the addition of the group. -/
theorem add_point (P Q : E.Element) : E.add P.point Q.point = .ok (P + Q).point := by
  obtain ⟨_ | ⟨x₁, y₁⟩, reduced₁⟩ := P
  · have neutral : (⟨.infinity, reduced₁⟩ : E.Element) = 0 := rfl
    rw [neutral, zero_add, Element.point_zero, add]
  obtain ⟨_ | ⟨x₂, y₂⟩, reduced₂⟩ := Q
  · have neutral : (⟨.infinity, reduced₂⟩ : E.Element) = 0 := rfl
    rw [neutral, add_zero, Element.point_zero, add]
    simp
  have on₁ := nonsingular_iff.mpr (contains_iff.mp reduced₁.2.2.2.2)
  have on₂ := nonsingular_iff.mpr (contains_iff.mp reduced₂.2.2.2.2)
  show E.add (.affine x₁ y₁) (.affine x₂ y₂) =
    .ok (Element.ofGroup (.some _ _ on₁ + .some _ _ on₂ : E.weierstrass.Point)).point
  -- The branches of the program are the cases of the group law.
  by_cases sameX : x₁ = x₂
  · subst sameX
    by_cases opposite : (y₁ + y₂) % (E.p : ℤ) = 0
    · rw [WeierstrassCurve.Affine.Point.add_of_Y_eq rfl ((opposite_iff _ _ _).mp opposite)]
      simp only [add, opposite, if_true]
      rfl
    · exact add_tangent on₁ on₂ opposite
  · exact add_secant on₁ on₂ fun same =>
      sameX (eq_of_cast_eq reduced₁.1 reduced₁.2.1 reduced₂.1 reduced₂.2.1 same)

/-- Negating coordinates is the negation of the group. -/
theorem neg_point (P : E.Element) : E.neg P.point = (-P).point := by
  obtain ⟨_ | ⟨x, y⟩, reduced⟩ := P
  · rfl
  · have onCurve := nonsingular_iff.mpr (contains_iff.mp reduced.2.2.2.2)
    show Point.affine x (-y % E.p) =
      (Element.ofGroup (-.some _ _ onCurve : E.weierstrass.Point)).point
    rw [WeierstrassCurve.Affine.Point.neg_some,
      Element.ofGroup_some rfl (y := -y) (by simp [weierstrass]),
      Int.emod_eq_of_lt reduced.1 reduced.2.1]

/-- Doubling and adding is iterated addition. -/
theorem mulNat_point (P : E.Element) (n : ℕ) : E.mulNat P.point n = .ok (n • P).point := by
  induction n using Nat.strongRecOn with
  | ind n ih =>
    rw [mulNat]
    split
    · next zero => rw [zero, zero_nsmul, Element.point_zero]
    · next nonzero =>
      -- The half is doubled, and the point is added once more for an odd number.
      have half := ih (n / 2) (by omega)
      have twice : (n / 2) • P + (n / 2) • P = (2 * (n / 2)) • P := by rw [← add_nsmul, two_mul]
      simp only [half, bind, Except.bind, add_point, twice]
      split
      · next isOdd => rw [← succ_nsmul, show 2 * (n / 2) + 1 = n by omega]
      · next isEven => rw [show 2 * (n / 2) = n by omega]

/-- Only the residue of a scalar counts. -/
theorem mul_point (P : E.Element) (k : ℤ) :
    E.mul k P.point = .ok ((k % E.order).toNat • P).point := by
  simp only [mul]
  split
  · next degenerate =>
    rcases degenerate with zero | infinity
    · rw [zero, zero_nsmul, Element.point_zero]
    · rw [← Element.eq_zero_iff] at infinity
      rw [infinity, nsmul_zero, Element.point_zero]
  · exact mulNat_point P _

end Group

end Curve

end Quorum
