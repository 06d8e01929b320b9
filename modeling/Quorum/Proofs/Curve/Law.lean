import Quorum.Proofs.Curve.Order

/-!
# The group law in coordinates

What is known of the group of points is said here of coordinates as they are given: of the point
at infinity and of the pairs of reduced coordinates on the curve. Addition never fails on them and
is the operation of a commutative group. Multiplication by any integer, negative or larger than the
order, is addition repeated as often as the residue of the integer says, and so it turns sums of
integers into sums of points and products into repeated multiplication.

## Main definitions

* `Curve.IsGroupLaw` — addition and negation make the reduced points a commutative group
* `Curve.addTimes` — a point added to the point at infinity a number of times

## Main results

* `Curve.p256_isGroupLaw` — addition on P-256 is a group law
* `Curve.mul_is_repeated_addition` — multiplication on P-256 is repeated addition, and compatible
  with sums and products of integers
-/

namespace Quorum

namespace Curve

/-- Addition and negation make the point at infinity and the points with reduced coordinates a
commutative group: they never fail and do not leave these points. -/
structure IsGroupLaw (E : Curve) : Prop where
  infinity_reduced : E.Reduced .infinity
  neg_reduced : ∀ P, E.Reduced P → E.Reduced (E.neg P)
  /-- Every sum exists. -/
  add_reduced : ∀ P Q, E.Reduced P → E.Reduced Q → ∃ S, E.add P Q = .ok S ∧ E.Reduced S
  infinity_add : ∀ P, E.Reduced P → E.add .infinity P = .ok P
  add_infinity : ∀ P, E.Reduced P → E.add P .infinity = .ok P
  neg_add : ∀ P, E.Reduced P → E.add (E.neg P) P = .ok .infinity
  add_neg : ∀ P, E.Reduced P → E.add P (E.neg P) = .ok .infinity
  add_comm : ∀ P Q, E.Reduced P → E.Reduced Q → E.add P Q = E.add Q P
  /-- Three points have one sum, whichever two are added first. -/
  add_assoc : ∀ P Q R, E.Reduced P → E.Reduced Q → E.Reduced R →
    (E.add P Q).bind (fun S => E.add S R) = (E.add Q R).bind (fun S => E.add P S)

/-- A point added to the point at infinity a number of times. -/
def addTimes (E : Curve) (P : Point) : Nat → Except BadValue Point
  | 0 => .ok .infinity
  | n + 1 => (E.addTimes P n).bind fun Q => E.add Q P

variable {E : Curve}

section Addition

variable [E.Smooth]

/-- Adding a point again and again is the multiple in the group. -/
theorem addTimes_point (P : E.Element) (n : ℕ) : E.addTimes P.point n = .ok (n • P).point := by
  induction n with
  | zero => rw [addTimes, zero_nsmul, Element.point_zero]
  | succ n ih => rw [addTimes, ih, Except.bind, add_point, succ_nsmul]

theorem add_point_comm (P Q : E.Element) : E.add P.point Q.point = E.add Q.point P.point := by
  rw [add_point, add_point, add_comm]

theorem add_point_assoc (P Q R : E.Element) :
    (E.add P.point Q.point).bind (fun S => E.add S R.point) =
      (E.add Q.point R.point).bind (fun S => E.add P.point S) := by
  rw [add_point, add_point, Except.bind, Except.bind, add_point, add_point, add_assoc]

end Addition

/-- Addition on P-256 is total on the reduced points and makes them a commutative group, whose
neutral element is the point at infinity and whose inverses are the points with the opposite
ordinate. Equal points, opposite points and the point at infinity are not left out. -/
theorem p256_isGroupLaw : p256.IsGroupLaw where
  infinity_reduced := trivial
  neg_reduced P onP := by
    have opposite := neg_point (E := p256) ⟨P, onP⟩
    exact opposite ▸ Element.reduced _
  add_reduced P Q onP onQ := by
    have sum := add_point (E := p256) ⟨P, onP⟩ ⟨Q, onQ⟩
    exact ⟨_, sum, Element.reduced _⟩
  infinity_add P onP := by
    have sum := add_point (E := p256) 0 ⟨P, onP⟩
    rwa [zero_add] at sum
  add_infinity P onP := by
    have sum := add_point (E := p256) ⟨P, onP⟩ 0
    rwa [add_zero] at sum
  neg_add P onP := by
    have sum := add_point (E := p256) (-⟨P, onP⟩) ⟨P, onP⟩
    rwa [← neg_point, neg_add_cancel] at sum
  add_neg P onP := by
    have sum := add_point (E := p256) ⟨P, onP⟩ (-⟨P, onP⟩)
    rwa [← neg_point, add_neg_cancel] at sum
  add_comm P Q onP onQ := add_point_comm (E := p256) ⟨P, onP⟩ ⟨Q, onQ⟩
  add_assoc P Q R onP onQ onR := add_point_assoc (E := p256) ⟨P, onP⟩ ⟨Q, onQ⟩ ⟨R, onR⟩

section Multiplication

variable [E.PrimeOrder]

theorem mul_eq_addTimes (P : E.Element) (a : ℤ) :
    E.mul a P.point = E.addTimes P.point (a % E.order).toNat := by
  rw [mul_point, addTimes_point]

/-- The multiple by a sum of integers is the sum of the multiples. -/
theorem mul_add_point (P : E.Element) (a b : ℤ) : E.mul (a + b) P.point =
    (E.mul a P.point).bind fun A => (E.mul b P.point).bind fun B => E.add A B := by
  simp only [mul_eq_smul, Except.bind, add_point, Int.cast_add, add_smul]

/-- The multiple by a product of integers is a multiple of a multiple. -/
theorem mul_mul_point (P : E.Element) (a b : ℤ) :
    E.mul (a * b) P.point = (E.mul b P.point).bind fun B => E.mul a B := by
  simp only [mul_eq_smul, Except.bind, Int.cast_mul, mul_smul]

/-- Whatever derives the public point of a secret by repeated addition serves to multiply the base
point by all integers. -/
theorem mulBaseBy_eq_mul {derive : ℕ → Except BadValue Point}
    (derives : ∀ n, 0 < n → n < E.order → derive n = E.addTimes E.base n) (a : ℤ) :
    E.mulBaseBy derive a = E.mul a E.base := by
  have order_pos : (0 : ℤ) < E.order := by exact_mod_cast (PrimeOrder.order_prime (E := E)).pos
  have below : (a % E.order).toNat < E.order := by
    have := Int.emod_lt_of_pos a order_pos
    omega
  have repeated : E.mul a E.base = _ := mul_eq_addTimes Element.base a
  rw [mulBaseBy, repeated]
  split
  · next zero => rw [zero, addTimes]
  · next nonzero => exact derives _ (Nat.pos_of_ne_zero nonzero) below

theorem publicPoint_eq_addTimes (E : Curve) [E.PrimeOrder] (n : ℕ) :
    E.publicPoint n = E.addTimes E.base n :=
  (mulNat_point Element.base n).trans (addTimes_point Element.base n).symm

end Multiplication

/-- For all integers and every reduced point of P-256, multiplication gives a reduced point and is
repeated addition; the multiple by a sum is the sum of the multiples, and the multiple by a product
is a multiple of a multiple. Public points of secrets, given that they are repeated sums of the base
point, lead to the same multiples of it. -/
theorem mul_is_repeated_addition {P : Point} (onP : p256.Reduced P)
    {derive : ℕ → Except BadValue Point}
    (derives : ∀ n, 0 < n → n < p256.order → derive n = p256.addTimes p256.base n) (a b : ℤ) :
    (∃ A, p256.mul a P = .ok A ∧ p256.Reduced A) ∧
    p256.mul a P = p256.addTimes P (a % p256.order).toNat ∧
    p256.mul (a + b) P =
      ((p256.mul a P).bind fun A => (p256.mul b P).bind fun B => p256.add A B) ∧
    p256.mul (a * b) P = ((p256.mul b P).bind fun B => p256.mul a B) ∧
    p256.mulBaseBy derive a = p256.mul a p256.base := by
  have multiple := mul_eq_smul (E := p256) ⟨P, onP⟩ a
  exact ⟨⟨_, multiple, Element.reduced _⟩, mul_eq_addTimes (E := p256) ⟨P, onP⟩ a,
    mul_add_point (E := p256) ⟨P, onP⟩ a b, mul_mul_point (E := p256) ⟨P, onP⟩ a b,
    mulBaseBy_eq_mul derives a⟩

/-- Minus one and two add up to one, at the base point and with the public points of the curve. -/
theorem mul_is_repeated_addition_of_minus_one :
    p256.Reduced p256.base ∧
    (∀ n, 0 < n → n < p256.order → p256.publicPoint n = p256.addTimes p256.base n) ∧
    p256.addTimes p256.base (-1 % (p256.order : ℤ)).toNat = p256.mulBaseBy p256.publicPoint (-1) ∧
    p256.mul (-1 + 2) p256.base =
      ((p256.mul (-1) p256.base).bind fun A => (p256.mul 2 p256.base).bind fun B =>
        p256.add A B) := by
  have onBase : p256.Reduced p256.base := by decide +kernel
  have derives := fun n (_ : 0 < n) (_ : n < p256.order) => publicPoint_eq_addTimes p256 n
  obtain ⟨-, repeated, sum, -, public_⟩ := mul_is_repeated_addition onBase derives (-1) 2
  exact ⟨onBase, derives, repeated.symm.trans public_.symm, sum⟩

end Curve

end Quorum
