import Mathlib.Algebra.Field.ZMod
import Mathlib.RingTheory.Int.Basic
import Quorum.Curve

/-!
# Inverses and powers are what they claim to be

The Euclidean loop keeps two congruences: each remainder is its coefficient times the number that
is inverted. At the end the remainder is the greatest common divisor, so whenever that is one the
coefficient is an inverse.

## Main results

* `Arith.inverse?_eq_ok` — a number prime to a positive modulus has an inverse in `[0, m)`
* `Curve.inverse_eq_ok` — modulo a prime every number that is not zero has one, and it is the
  inverse of the field
* `Arith.powMod_eq` — repeated squaring computes the power
-/

namespace Quorum

namespace Arith

/-- The Euclidean loop ends with the greatest common divisor. -/
theorem bezout_fst (r₀ r₁ : ℕ) (s₀ s₁ : ℤ) : (bezout r₀ r₁ s₀ s₁).1 = Nat.gcd r₁ r₀ := by
  fun_induction bezout r₀ r₁ s₀ s₁ with
  | case1 r₀ s₀ s₁ => simp
  | case2 r₀ r₁ s₀ s₁ more ih => rw [ih, ← Nat.gcd_rec]

/-- The loop keeps every remainder congruent to its coefficient times the number `a`. -/
theorem bezout_modEq {n a : ℤ} (r₀ r₁ : ℕ) (s₀ s₁ : ℤ) (first : (r₀ : ℤ) ≡ s₀ * a [ZMOD n])
    (second : (r₁ : ℤ) ≡ s₁ * a [ZMOD n]) :
    ((bezout r₀ r₁ s₀ s₁).1 : ℤ) ≡ (bezout r₀ r₁ s₀ s₁).2 * a [ZMOD n] := by
  fun_induction bezout r₀ r₁ s₀ s₁ with
  | case1 r₀ s₀ s₁ => exact first
  | case2 r₀ r₁ s₀ s₁ more ih =>
    refine ih second ?_
    -- The new remainder is `r₀` less a multiple of `r₁`, and so is its coefficient.
    have division : ((r₀ % r₁ : ℕ) : ℤ) = r₀ - (r₀ / r₁ : ℕ) * r₁ := by
      have := Nat.mod_add_div r₀ r₁
      rw [eq_sub_iff_add_eq]
      exact_mod_cast by rw [mul_comm (r₀ / r₁)]; exact this
    rw [division, sub_mul, mul_assoc]
    exact first.sub (second.mul_left _)

/-- A number prime to a positive modulus has an inverse in `[0, m)`. -/
theorem inverse?_eq_ok {a : ℤ} {m : ℕ} (positive : 0 < m) (coprime : Int.gcd a m = 1) :
    ∃ r : ℤ, inverse? a m = .ok r ∧ 0 ≤ r ∧ r < m ∧ a * r ≡ 1 [ZMOD m] := by
  have nonzero : (m : ℤ) ≠ 0 := by exact_mod_cast positive.ne'
  set residue : ℕ := (a % m).toNat with residue_def
  have residue_eq : (residue : ℤ) = a % m := Int.toNat_of_nonneg (Int.emod_nonneg _ nonzero)
  have divisor : (bezout m residue 0 1).1 = 1 := by
    rw [bezout_fst, ← Int.gcd_natCast_natCast, residue_eq, Int.gcd_emod, coprime]
  -- The loop ends with one, whose coefficient is the inverse.
  have congruence : (1 : ℤ) ≡ (bezout m residue 0 1).2 * a [ZMOD m] := by
    have kept := bezout_modEq (n := m) (a := a) m residue 0 1 (by simp [Int.ModEq])
      (by rw [residue_eq, one_mul]; exact Int.mod_modEq a m)
    rwa [divisor] at kept
  set s := (bezout m residue 0 1).2 with s_def
  refine ⟨s % m, ?_, Int.emod_nonneg _ nonzero, Int.emod_lt_of_pos _ (by exact_mod_cast positive),
    ?_⟩
  · simp only [inverse?, if_neg nonzero, Int.natAbs_natCast, ← residue_def, divisor, ← s_def]
    simp
  · calc a * (s % m) ≡ a * s [ZMOD m] := (Int.mod_modEq s m).mul_left a
      _ = s * a := mul_comm _ _
      _ ≡ 1 [ZMOD m] := congruence.symm

/-- Repeated squaring computes the power. -/
theorem powMod_eq (m a e : ℕ) : powMod m a e = a ^ e % m := by
  induction e using Nat.strongRecOn with
  | ind e ih =>
    rw [powMod]
    split
    · next zero => rw [zero, pow_zero]
    · next nonzero =>
      have half := ih (e / 2) (by omega)
      have square : a ^ (e / 2) % m * (a ^ (e / 2) % m) % m = a ^ (2 * (e / 2)) % m := by
        rw [← Nat.mul_mod, two_mul, pow_add]
      simp only [half, square]
      split
      · next even => rw [show 2 * (e / 2) = e by omega]
      · next odd =>
        rw [Nat.mod_mul_mod, ← pow_succ, show 2 * (e / 2) + 1 = e by omega]

end Arith

namespace Curve

variable {p : ℕ} [Fact p.Prime]

/-- Modulo a prime, a number that is not zero has an inverse, which is that of the field. -/
theorem inverse_eq_ok {a : ℤ} (nonzero : (a : ZMod p) ≠ 0) :
    ∃ r : ℤ, inverse a p = .ok r ∧ (r : ZMod p) = (a : ZMod p)⁻¹ := by
  have coprime : Int.gcd a p = 1 := by
    rw [Int.gcd_comm, ← Int.isCoprime_iff_gcd_eq_one,
      (Nat.prime_iff_prime_int.mp Fact.out).coprime_iff_not_dvd]
    rwa [← ZMod.intCast_zmod_eq_zero_iff_dvd]
  obtain ⟨r, isOk, -, -, congruence⟩ :=
    Arith.inverse?_eq_ok (Fact.out : p.Prime).pos coprime
  refine ⟨r, by simp only [inverse, isOk], ?_⟩
  have product : (a : ZMod p) * r = 1 := by
    exact_mod_cast (ZMod.intCast_eq_intCast_iff (a * r) 1 p).mpr congruence
  exact eq_inv_of_mul_eq_one_right product

end Curve

end Quorum
