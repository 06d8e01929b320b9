import Quorum.Proofs.Arith.Primality
import Quorum.Proofs.Curve.Group

/-!
# Multiples of the base point without inversions

In the coordinates `(X, Y, Z)` of the point `(X / Z², Y / Z³)` a sum needs no inversion, so a large
multiple of the base point can be evaluated. A step that is not covered by the formulae, as for
equal or opposite points, sets `Z` to zero and every later step keeps it there: a multiple that
ends with another `Z` is right.

## Main definitions

* `Curve.Jacobian` — coordinates with a common denominator
* `Curve.Jacobian.Represents` — the point that coordinates stand for
* `Curve.ladder` — a multiple of the base point

## Main results

* `Curve.represents_ladder` — the ladder gives the multiple that it should
* `Curve.order_smul_base_of_laddersBack` — evaluating it shows that the base point has the order
-/

namespace Quorum

namespace Curve

/-- The coordinates of the point `(x / z², y / z³)`. -/
structure Jacobian where
  /-- The abscissa times `z²`. -/
  x : ℤ
  /-- The ordinate times `z³`. -/
  y : ℤ
  /-- The root of the common denominators. -/
  z : ℤ
deriving DecidableEq

namespace Jacobian

/-- Twice a point. -/
def double (E : Curve) (j : Jacobian) : Jacobian :=
  let square := j.y * j.y % E.p
  let s := 4 * j.x * square % E.p
  let zz := j.z * j.z % E.p
  let m := (3 * (j.x * j.x) + E.a * (zz * zz)) % E.p
  let x := (m * m - 2 * s) % E.p
  ⟨x, (m * (s - x) - 8 * (square * square)) % E.p, 2 * j.y * j.z % E.p⟩

/-- The sum with the base point. -/
def addBase (E : Curve) (j : Jacobian) : Jacobian :=
  let zz := j.z * j.z % E.p
  let h := (E.gx * zz - j.x) % E.p
  let r := (E.gy * (zz * j.z) - j.y) % E.p
  let hh := h * h % E.p
  let hhh := hh * h % E.p
  let x := (r * r - hhh - 2 * (j.x * hh)) % E.p
  ⟨x, (r * (j.x * hh - x) - j.y * hhh) % E.p, j.z * h % E.p⟩

end Jacobian

/-- A multiple of the base point by a positive number. -/
def ladder (E : Curve) (n : ℕ) : Jacobian :=
  if n ≤ 1 then ⟨E.gx, E.gy, 1⟩
  else
    let twice := (E.ladder (n / 2)).double E
    if n % 2 = 1 then twice.addBase E else twice
termination_by n
decreasing_by omega

variable {E : Curve} [E.Smooth]

/-- Coordinates stand for the point that they give when the denominators are divided out. -/
def Jacobian.Represents (j : Jacobian) : E.weierstrass.Point → Prop
  | .zero => False
  | .some x y _ => (j.z : ZMod E.p) ≠ 0 ∧ (j.x : ZMod E.p) = x * j.z ^ 2 ∧
      (j.y : ZMod E.p) = y * j.z ^ 3

namespace Jacobian

open WeierstrassCurve.Affine

theorem cast_double_z (j : Jacobian) : ((j.double E).z : ZMod E.p) = 2 * j.y * j.z := by
  simp [double, ZMod.intCast_mod]

theorem cast_addBase_z (j : Jacobian) :
    ((j.addBase E).z : ZMod E.p) = j.z * (E.gx * j.z ^ 2 - j.x) := by
  simp [addBase, ZMod.intCast_mod, pow_two]

/-- Doubling coordinates doubles the point unless the denominator vanishes. -/
theorem Represents.double {j : Jacobian} {P : E.weierstrass.Point} (represents : j.Represents P)
    (finite : ((j.double E).z : ZMod E.p) ≠ 0) : (j.double E).Represents (P + P) := by
  obtain _ | ⟨x, y, onCurve⟩ := P
  · exact represents.elim
  obtain ⟨nonzero, x_eq, y_eq⟩ := represents
  have z_eq := cast_double_z (E := E) j
  have two_ne : (2 : ZMod E.p) ≠ 0 := two_ne_zero_of_smooth
  -- The new denominator is twice the ordinate times the old one.
  have y_ne : y ≠ 0 := fun zero => finite (by rw [z_eq, y_eq, zero]; ring)
  have twice : y - E.weierstrass.negY x y = 2 * y := by
    simp only [weierstrass, negY]
    ring
  have notOpposite : y ≠ E.weierstrass.negY x y :=
    sub_ne_zero.mp (by rw [twice]; exact mul_ne_zero two_ne y_ne)
  rw [Point.add_self_of_Y_ne notOpposite]
  refine ⟨finite, ?_, ?_⟩
  · rw [z_eq, slope_of_Y_ne rfl notOpposite, twice]
    simp only [Jacobian.double, weierstrass, addX]
    push_cast [ZMod.intCast_mod, x_eq, y_eq]
    field_simp
    ring
  · rw [z_eq, slope_of_Y_ne rfl notOpposite, twice]
    simp only [Jacobian.double, weierstrass, addX, addY, negAddY, negY]
    push_cast [ZMod.intCast_mod, x_eq, y_eq]
    field_simp
    ring

/-- Adding the base point to coordinates adds it to the point unless the denominator vanishes. -/
theorem Represents.addBase {j : Jacobian} {P : E.weierstrass.Point} (represents : j.Represents P)
    (onBase : E.weierstrass.Nonsingular (E.gx : ZMod E.p) E.gy)
    (finite : ((j.addBase E).z : ZMod E.p) ≠ 0) :
    (j.addBase E).Represents (P + .some _ _ onBase) := by
  obtain _ | ⟨x, y, onCurve⟩ := P
  · exact represents.elim
  obtain ⟨nonzero, x_eq, y_eq⟩ := represents
  have z_eq := cast_addBase_z (E := E) j
  -- The new denominator vanishes when the point has the abscissa of the base point.
  have different : x ≠ E.gx := fun same => finite (by rw [z_eq, x_eq, same]; ring)
  have apart : x - E.gx ≠ 0 := sub_ne_zero.mpr different
  rw [Point.add_of_X_ne different]
  refine ⟨finite, ?_, ?_⟩
  · rw [z_eq, slope_of_X_ne different]
    simp only [Jacobian.addBase, weierstrass, addX]
    push_cast [ZMod.intCast_mod, x_eq, y_eq]
    field_simp
    ring
  · rw [z_eq, slope_of_X_ne different]
    simp only [Jacobian.addBase, weierstrass, addX, addY, negAddY, negY]
    push_cast [ZMod.intCast_mod, x_eq, y_eq]
    field_simp
    ring

end Jacobian

/-- The ladder gives the multiple of the base point unless the denominator vanishes. -/
theorem represents_ladder (onBase : E.weierstrass.Nonsingular (E.gx : ZMod E.p) E.gy) {n : ℕ}
    (positive : 1 ≤ n) (finite : ((E.ladder n).z : ZMod E.p) ≠ 0) :
    (E.ladder n).Represents (n • (.some _ _ onBase : E.weierstrass.Point)) := by
  induction n using Nat.strongRecOn with
  | ind n ih =>
    by_cases small : n ≤ 1
    · obtain rfl : n = 1 := by omega
      rw [one_nsmul, ladder]
      simp [Jacobian.Represents]
    · have unfolded : E.ladder n = if n % 2 = 1 then ((E.ladder (n / 2)).double E).addBase E
          else (E.ladder (n / 2)).double E := by
        rw [ladder, if_neg small]
      -- A vanishing denominator would have been kept by the steps that follow it.
      have doubled (nonzero : (((E.ladder (n / 2)).double E).z : ZMod E.p) ≠ 0) :
          ((E.ladder (n / 2)).double E).Represents
            ((2 * (n / 2)) • (.some _ _ onBase : E.weierstrass.Point)) := by
        have half := ih (n / 2) (by omega) (by omega) fun zero =>
          nonzero (by rw [Jacobian.cast_double_z, zero, mul_zero])
        rw [two_mul, add_nsmul]
        exact half.double nonzero
      by_cases odd : n % 2 = 1
      · rw [unfolded, if_pos odd] at finite ⊢
        have added := (doubled fun zero =>
          finite (by rw [Jacobian.cast_addBase_z, zero, zero_mul])).addBase onBase finite
        rwa [← succ_nsmul, show 2 * (n / 2) + 1 = n by omega] at added
      · rw [unfolded, if_neg odd] at finite ⊢
        have even := doubled finite
        rwa [show 2 * (n / 2) = n by omega] at even

/-- Whether the ladder takes the base point to its opposite just before the order. -/
def laddersBack (E : Curve) : Bool :=
  let j := E.ladder (E.order - 1)
  j.z % E.p != 0 && (j.x - E.gx * (j.z * j.z)) % E.p == 0 &&
    (j.y + E.gy * (j.z * j.z * j.z)) % E.p == 0

/-- The order times the base point is zero if the ladder finds the opposite of the base point. -/
theorem order_smul_base_of_laddersBack (onBase : E.weierstrass.Nonsingular (E.gx : ZMod E.p) E.gy)
    (large : 2 ≤ E.order) (found : E.laddersBack = true) :
    E.order • (.some _ _ onBase : E.weierstrass.Point) = 0 := by
  simp only [laddersBack, Bool.and_eq_true, bne_iff_ne, beq_iff_eq, ne_eq,
    ← Int.dvd_iff_emod_eq_zero, ← ZMod.intCast_zmod_eq_zero_iff_dvd] at found
  obtain ⟨⟨finite, x_eq⟩, y_eq⟩ := found
  push_cast at x_eq y_eq
  have represents := represents_ladder onBase (by omega : 1 ≤ E.order - 1) finite
  obtain ⟨k, k_eq⟩ : ∃ k, k = E.order - 1 := ⟨_, rfl⟩
  rw [← k_eq] at represents finite x_eq y_eq
  -- Before the last step the ladder stands at the opposite of the base point.
  have back : k • (.some _ _ onBase : E.weierstrass.Point) = -.some _ _ onBase := by
    generalize k • (WeierstrassCurve.Affine.Point.some _ _ onBase) = multiple at represents ⊢
    obtain _ | ⟨x, y, onCurve⟩ := multiple
    · exact represents.elim
    obtain ⟨-, x_rep, y_rep⟩ := represents
    have x_base : x = E.gx := mul_right_cancel₀ (pow_ne_zero 2 finite) (by
      rw [← x_rep]; linear_combination x_eq)
    have y_base : y = -E.gy := mul_right_cancel₀ (pow_ne_zero 3 finite) (by
      rw [← y_rep]; linear_combination y_eq)
    rw [WeierstrassCurve.Affine.Point.neg_some]
    simp [x_base, y_base, weierstrass]
  rw [show E.order = k + 1 by omega, succ_nsmul, back, neg_add_cancel]

end Curve

end Quorum
