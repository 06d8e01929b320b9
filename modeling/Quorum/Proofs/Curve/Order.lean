import Mathlib.Algebra.Module.ZMod
import Mathlib.GroupTheory.Perm.Cycle.Type
import Quorum.Proofs.Curve.Ladder
import Quorum.Proofs.Curve.Torsion

/-!
# A curve whose order is prime

The abscissa and the parity of the ordinate determine a reduced point, so there are at most
`2 p + 1` of them. The order of the base point divides their number, and a number of points twice
as large would give a point of order two. On P-256 no other multiple is small enough, so the order
of the base point is the number of points, and the points are a vector space over the field of
scalars.

## Main definitions

* `Curve.PrimeOrder` — the order of the base point is prime and annihilates every point
* `Curve.Element.base` — the base point

## Main results

* `Curve.card_le` — the number of points is at most `2 p + 1`
* `Curve.order_smul_of_rootFree` — the order of the base point annihilates every point
* `Curve.mul_eq_smul`, `Curve.mulBase_eq_smul` — multiplication by the residue of a scalar
-/

namespace Quorum

namespace Curve

/-- A smooth curve on which the order of the base point is prime and annihilates every point. -/
class PrimeOrder (E : Curve) : Prop extends Smooth E where
  order_prime : E.order.Prime
  /-- The base point is a reduced point of the curve. -/
  base_reduced : E.Reduced E.base
  /-- The order annihilates every point. -/
  order_smul : ∀ P : E.Element, E.order • P = 0

variable {E : Curve}

section Counting

variable [E.Smooth]

theorem odd_prime : E.p % 2 = 1 :=
  (Smooth.prime (E := E)).eq_two_or_odd.resolve_left (Smooth.odd (E := E)).ne'

/-- Reduced ordinates with the same square and the same parity are equal. -/
theorem eq_of_sq_eq {y z : ℤ} (y_nonneg : 0 ≤ y) (y_lt : y < E.p) (z_nonneg : 0 ≤ z)
    (z_lt : z < E.p) (square : (y : ZMod E.p) ^ 2 = (z : ZMod E.p) ^ 2)
    (parity : y % 2 = z % 2) : y = z := by
  rcases sq_eq_sq_iff_eq_or_eq_neg.mp square with same | opposite
  · exact eq_of_cast_eq y_nonneg y_lt z_nonneg z_lt same
  · have divides : (E.p : ℤ) ∣ y + z := by
      rw [← ZMod.intCast_zmod_eq_zero_iff_dvd]
      push_cast
      rw [opposite, neg_add_cancel]
    obtain ⟨k, sum⟩ := divides
    have odd := odd_prime (E := E)
    -- The sum is zero or the prime, and the prime is odd.
    have k_nonneg : 0 ≤ k := by
      by_contra negative
      nlinarith
    have k_lt : k < 2 := by
      by_contra large
      nlinarith
    interval_cases k <;> omega

/-- The abscissa and the parity of the ordinate of a point. -/
def Element.code : E.Element → Option (ZMod E.p × Bool)
  | ⟨.infinity, _⟩ => none
  | ⟨.affine x y, _⟩ => some (x, y % 2 = 1)

/-- The abscissa and the parity of the ordinate determine a point. -/
theorem Element.code_injective : Function.Injective (Element.code (E := E)) := by
  rintro ⟨_ | ⟨x, y⟩, first⟩ ⟨_ | ⟨u, v⟩, second⟩ same
  · rfl
  · simp [code] at same
  · simp [code] at same
  · simp only [code, Option.some.injEq, Prod.mk.injEq, decide_eq_decide] at same
    obtain ⟨x_eq, parity⟩ := same
    have square : (y : ZMod E.p) ^ 2 = (v : ZMod E.p) ^ 2 := by
      rw [equation_iff.mp (contains_iff.mp first.2.2.2.2),
        equation_iff.mp (contains_iff.mp second.2.2.2.2), x_eq]
    refine Element.ext (congrArg₂ Point.affine ?_ ?_)
    · exact eq_of_cast_eq first.1 first.2.1 second.1 second.2.1 x_eq
    · exact eq_of_sq_eq first.2.2.1 first.2.2.2.1 second.2.2.1 second.2.2.2.1 square (by omega)

instance : Finite E.Element := Finite.of_injective _ Element.code_injective

/-- The number of points is at most `2 p + 1`. -/
theorem card_le : Nat.card E.Element ≤ 2 * E.p + 1 := by
  refine (Nat.card_le_card_of_injective _ Element.code_injective).trans_eq ?_
  rw [Finite.card_option, Nat.card_prod, Nat.card_zmod, Nat.card_eq_fintype_card (α := Bool),
    Fintype.card_bool, mul_comm]

/-- Only a point with the ordinate zero is its own opposite. -/
theorem Element.two_smul_ne_zero (rootFree : ∀ r : ZMod E.p, r ^ 3 + E.a * r + E.b ≠ 0)
    {P : E.Element} (nonzero : P ≠ 0) : 2 • P ≠ 0 := by
  intro zero
  obtain ⟨_ | ⟨x, y⟩, reduced⟩ := P
  · exact nonzero rfl
  rw [two_nsmul, add_eq_zero_iff_eq_neg, Element.ext_iff, ← neg_point] at zero
  simp only [neg, Point.affine.injEq, true_and] at zero
  have double : (2 : ZMod E.p) * y = 0 := by
    have residue := congrArg (Int.cast (R := ZMod E.p)) zero
    push_cast [ZMod.intCast_mod] at residue
    linear_combination residue
  refine rootFree x ?_
  rw [← equation_iff.mp (contains_iff.mp reduced.2.2.2.2),
    (mul_eq_zero.mp double).resolve_left two_ne_zero_of_smooth]
  exact zero_pow two_ne_zero

/-- The order of the base point is the number of points if it is prime and large enough and no
point has the order two. -/
theorem order_smul_of_rootFree (rootFree : ∀ r : ZMod E.p, r ^ 3 + E.a * r + E.b ≠ 0)
    (order_prime : E.order.Prime) (large : 2 * E.p + 1 < 3 * E.order) {G : E.Element}
    (nonzero : G ≠ 0) (order_smul : E.order • G = 0) (P : E.Element) : E.order • P = 0 := by
  have : Fact E.order.Prime := ⟨order_prime⟩
  -- The number of points is a multiple `k` of the order by Lagrange's theorem.
  obtain ⟨k, card⟩ := addOrderOf_eq_prime order_smul nonzero ▸ addOrderOf_dvd_natCard G
  have k_pos : 0 < k := Nat.pos_of_ne_zero fun zero => by
    rw [zero, mul_zero] at card
    exact Nat.card_pos.ne' card
  have k_lt : k < 3 := by
    have few := card_le (E := E)
    rw [card] at few
    by_contra many
    nlinarith
  -- Twice the order would give a point of order two by Cauchy's theorem.
  have k_ne : k ≠ 2 := by
    rintro rfl
    have : Fact (Nat.Prime 2) := ⟨Nat.prime_two⟩
    obtain ⟨Q, order_two⟩ := exists_prime_addOrderOf_dvd_card' 2 (Dvd.intro_left _ card.symm)
    have twice : 2 • Q = 0 := order_two ▸ addOrderOf_nsmul_eq_zero Q
    refine Element.two_smul_ne_zero rootFree (fun zero => ?_) twice
    rw [zero, addOrderOf_zero] at order_two
    omega
  obtain rfl : k = 1 := by omega
  rw [← mul_one E.order, ← card]
  exact card_nsmul_eq_zero'

/-- The order of the base point annihilates it if the ladder finds its opposite. -/
theorem Element.order_smul_base (reduced : E.Reduced E.base) (large : 2 ≤ E.order)
    (found : E.laddersBack = true) : E.order • (⟨E.base, reduced⟩ : E.Element) = 0 := by
  have onBase : E.weierstrass.Nonsingular (E.gx : ZMod E.p) E.gy := by
    exact_mod_cast nonsingular_iff.mpr (contains_iff.mp reduced.2.2.2.2)
  have toBase : Element.equiv (⟨E.base, reduced⟩ : E.Element) = .some _ _ onBase := by
    simp [Element.equiv, Element.toGroup, Curve.base]
  refine Element.equiv.injective ?_
  rw [Element.equiv_nsmul, toBase, order_smul_base_of_laddersBack onBase large found]
  rfl

end Counting

section Scalars

variable [E.PrimeOrder]

instance : Fact E.order.Prime := ⟨PrimeOrder.order_prime⟩

noncomputable instance : Module (ZMod E.order) E.Element :=
  AddCommGroup.zmodModule PrimeOrder.order_smul

/-- The base point. -/
def Element.base : E.Element := ⟨E.base, PrimeOrder.base_reduced⟩

@[simp] theorem Element.point_base : (Element.base : E.Element).point = E.base := rfl

theorem Element.base_ne_zero : (Element.base : E.Element) ≠ 0 := by
  simp [Element.eq_zero_iff, Curve.base]

/-- Multiplying coordinates is multiplication by the residue of the scalar. -/
theorem mul_eq_smul (P : E.Element) (k : ℤ) :
    E.mul k P.point = .ok ((k : ZMod E.order) • P).point := by
  have positive : (0 : ℤ) < E.order := by exact_mod_cast (PrimeOrder.order_prime (E := E)).pos
  rw [mul_point, ← Nat.cast_smul_eq_nsmul (ZMod E.order), ← Int.cast_natCast,
    Int.toNat_of_nonneg (Int.emod_nonneg k positive.ne'), ZMod.intCast_mod]

/-- Public points are the multiples of the base point that the ladder computes. -/
theorem mulBase_eq_mul (E : Curve) (k : ℤ) : E.mulBase k = E.mul k E.base := by
  simp [mulBase, mulBaseBy, mul, publicPoint, Curve.base]

/-- Multiples of the base point depend on the residue of the scalar. -/
theorem mulBase_eq_smul (E : Curve) [E.PrimeOrder] (k : ℤ) :
    E.mulBase k = .ok ((k : ZMod E.order) • (Element.base : E.Element)).point := by
  rw [mulBase_eq_mul]
  exact mul_eq_smul Element.base k

end Scalars

instance : p256.Smooth where
  prime := p256_prime
  odd := by decide
  discriminant := by decide +kernel

/-- The inverse of `X ^ p - X` modulo the cubic of P-256. -/
def p256FrobeniusInverse : Quadratic where
  c₀ := 0xa969487079f1744798bf0de6fded091b66e9d328eb0645fe5d979d1339b7f47f
  c₁ := 0xa4a08891884100c13323460107a8d28eede4387fa3e6e9bfebec9f6d72d0b5cc
  c₂ := 0x4cde11cf86cb876cd59cf0115813c55af0ecd3cda667d98bb9a347a56aa74a6d

/-- P-256 has no point of order two. -/
theorem p256_cubic_ne_zero (r : ZMod p256.p) : r ^ 3 + p256.a * r + p256.b ≠ 0 :=
  cubic_ne_zero (E := p256) p256FrobeniusInverse (by decide +kernel) r

instance : p256.PrimeOrder where
  order_prime := p256_order_prime
  base_reduced := by decide +kernel
  order_smul := order_smul_of_rootFree p256_cubic_ne_zero p256_order_prime (by decide)
    (by simp [Element.eq_zero_iff, Curve.base])
    (Element.order_smul_base (by decide +kernel) (by decide) (by decide +kernel))

end Curve

end Quorum
