import Mathlib.LinearAlgebra.Lagrange
import Quorum.Proofs.Curve.Order
import Quorum.Sharing

/-!
# Interpolation gives the secret back

Over the field of scalars a share is the value of a polynomial, and the weight of a point is the
value at zero of the Lagrange polynomial of that point. Points that differ modulo the order have
weights, and shares at more points than the degree add up to the constant coefficient.

## Main definitions

* `Sharing.polynomial` — the polynomial with given coefficients
* `Sharing.weight` — the value at zero of a Lagrange polynomial

## Main results

* `Sharing.cast_evaluate` — a share is a value of the polynomial
* `Sharing.lagrange_eq_ok` — distinct points have weights
* `Sharing.sum_weight_mul_evaluate` — weighted shares add up to the secret
* `Sharing.lagrange_reconstructs` — so do shares with the weights that are computed
-/

namespace Quorum

namespace Sharing

open Polynomial

/-- The polynomial with the given coefficients, the constant one first. -/
noncomputable def polynomial : List ℤ → (ZMod order)[X]
  | [] => 0
  | a :: coefficients => polynomial coefficients * X + C (a : ZMod order)

/-- A share is a value of the polynomial. -/
theorem cast_evaluate (coefficients : List ℤ) (x : ℤ) :
    (evaluate coefficients x : ZMod order) = (polynomial coefficients).eval (x : ZMod order) := by
  induction coefficients with
  | nil => simp [evaluate, polynomial]
  | cons a coefficients ih =>
    rw [evaluate] at ih ⊢
    rw [List.foldr_cons, ZMod.intCast_mod]
    push_cast [ih]
    simp [polynomial]

/-- The degree is less than the number of coefficients. -/
theorem degree_polynomial_lt (coefficients : List ℤ) :
    (polynomial coefficients).degree < coefficients.length := by
  rw [degree_lt_iff_coeff_zero]
  induction coefficients with
  | nil => simp [polynomial]
  | cons a coefficients ih =>
    rintro (_ | m) large
    · simp at large
    · rw [polynomial, coeff_add, coeff_mul_X, coeff_C_succ, add_zero]
      exact ih m (by simpa using large)

theorem eval_zero_polynomial (a : ℤ) (coefficients : List ℤ) :
    (polynomial (a :: coefficients)).eval 0 = (a : ZMod order) := by
  simp [polynomial]

/-- A share is reduced. -/
theorem evaluate_mem_range (coefficients : List ℤ) (x : ℤ) :
    0 ≤ evaluate coefficients x ∧ evaluate coefficients x < order := by
  have positive : (0 : ℤ) < order := by decide
  cases coefficients with
  | nil => exact ⟨le_rfl, positive⟩
  | cons a coefficients =>
    exact ⟨Int.emod_nonneg _ positive.ne', Int.emod_lt_of_pos _ positive⟩

/-- Reduced integers that are the same scalar are the same. -/
theorem eq_of_cast_eq {a b : ℤ} (a_range : 0 ≤ a ∧ a < order) (b_range : 0 ≤ b ∧ b < order)
    (same : (a : ZMod order) = b) : a = b := by
  have congruent := (ZMod.intCast_eq_intCast_iff' a b order).mp same
  rwa [Int.emod_eq_of_lt a_range.1 a_range.2, Int.emod_eq_of_lt b_range.1 b_range.2] at congruent

/-- A share that is not zero is not the zero scalar. -/
theorem cast_evaluate_ne_zero {coefficients : List ℤ} {x : ℤ}
    (nonzero : evaluate coefficients x ≠ 0) : (evaluate coefficients x : ZMod order) ≠ 0 := by
  intro zero
  have zero_range : (0 : ℤ) ≤ 0 ∧ (0 : ℤ) < order := by decide
  exact nonzero (eq_of_cast_eq (evaluate_mem_range coefficients x) zero_range
    (zero.trans Int.cast_zero.symm))

/-- The product over the other points, in the field of scalars. -/
theorem cast_productOver (f : ℤ → ℤ) (x : ℤ) {points : List ℤ} (nodup : points.Nodup) :
    (productOver f x points : ZMod order) = ∏ y ∈ points.toFinset.erase x, (f y : ZMod order) := by
  -- The loop multiplies into an accumulator and skips the point itself.
  suffices accumulated : ∀ acc : ℤ,
      ((points.foldl (fun acc y => if y = x then acc else acc * f y % order) acc : ℤ) :
        ZMod order) = acc * ∏ y ∈ points.toFinset.erase x, (f y : ZMod order) by
    rw [productOver, accumulated, Int.cast_one, one_mul]
  induction points with
  | nil => simp
  | cons y points ih =>
    intro acc
    obtain ⟨fresh, nodup⟩ := List.nodup_cons.mp nodup
    rw [List.foldl_cons, ih nodup, List.toFinset_cons]
    split
    · next same =>
      subst same
      rw [Finset.erase_insert_eq_erase]
    · next different =>
      rw [Finset.erase_insert_of_ne different, Finset.prod_insert (by simp [fresh]),
        ZMod.intCast_mod]
      push_cast
      ring

/-- The value at zero of the Lagrange polynomial of `x` among points. -/
noncomputable def weight (points : List ℤ) (x : ℤ) : ZMod order :=
  (Lagrange.basis points.toFinset (fun y : ℤ => (y : ZMod order)) x).eval 0

section Distinct

variable {points : List ℤ} (nodup : points.Nodup) (range : ∀ x ∈ points, 0 ≤ x ∧ x < order)

include range in
/-- Points that lie below the order differ in the field of scalars. -/
theorem cast_injOn : Set.InjOn (fun y : ℤ => (y : ZMod order)) points.toFinset := by
  intro x x_mem y y_mem same
  have x_range := range x (by simpa using x_mem)
  have y_range := range y (by simpa using y_mem)
  exact eq_of_cast_eq x_range y_range same

include nodup range in
/-- Every one of distinct points has a weight. -/
theorem lagrange_eq_ok {x : ℤ} (member : x ∈ points) :
    ∃ w : ℤ, lagrange x points = .ok w ∧ (w : ZMod order) = weight points x := by
  -- No difference to another point vanishes, so the denominator can be inverted.
  have apart : ∀ y ∈ points.toFinset.erase x, (y : ZMod order) - x ≠ 0 := by
    intro y y_mem
    obtain ⟨different, y_mem⟩ := Finset.mem_erase.mp y_mem
    exact sub_ne_zero.mpr ((cast_injOn range).ne y_mem (by simpa using member) different)
  have nonzero : (productOver (fun y => y - x) x points : ZMod order) ≠ 0 := by
    rw [cast_productOver _ _ nodup]
    push_cast
    exact Finset.prod_ne_zero_iff.mpr apart
  obtain ⟨i, isOk, isInverse⟩ := Curve.inverse_eq_ok nonzero
  refine ⟨productOver (fun y => y) x points * i % order, ?_, ?_⟩
  · simp only [lagrange, isOk]
    rfl
  · rw [ZMod.intCast_mod, Int.cast_mul, isInverse, cast_productOver _ _ nodup,
      cast_productOver _ _ nodup, weight, Lagrange.basis, eval_prod, ← Finset.prod_inv_distrib,
      ← Finset.prod_mul_distrib]
    refine Finset.prod_congr rfl fun y _ => ?_
    simp only [Lagrange.basisDivisor, eval_mul, eval_C, eval_sub, eval_X]
    push_cast
    -- Both signs are turned at once: `y / (y - x)` is `(0 - y) / (x - y)`.
    rw [← neg_sub (x : ZMod order), inv_neg]
    ring

include nodup range in
/-- Weighted shares at more points than the degree add up to the constant coefficient. -/
theorem sum_weight_mul_evaluate (secret : ℤ) (coefficients : List ℤ)
    (enough : coefficients.length < points.length) :
    (points.map fun x => weight points x * evaluate (secret :: coefficients) x).sum =
      (secret : ZMod order) := by
  set f := polynomial (secret :: coefficients) with f_def
  have degree_lt : f.degree < points.toFinset.card := by
    refine (degree_polynomial_lt (secret :: coefficients)).trans_le ?_
    rw [List.toFinset_card_of_nodup nodup]
    exact_mod_cast enough
  have interpolated := congrArg (eval 0) (Lagrange.eq_interpolate (cast_injOn range) degree_lt)
  rw [f_def, eval_zero_polynomial, Lagrange.interpolate_apply, eval_finsetSum] at interpolated
  rw [interpolated, ← List.sum_toFinset _ nodup]
  refine Finset.sum_congr rfl fun x _ => ?_
  rw [eval_mul, eval_C, cast_evaluate, weight, mul_comm]

end Distinct

/-- The weights of distinct points other than zero exist, in whatever order the points come, and the
weighted shares of a polynomial with no more coefficients than there are points add up to its
constant coefficient. -/
theorem lagrange_reconstructs {points : List ℤ} (nodup : points.Nodup)
    (range : ∀ x ∈ points, 1 ≤ x ∧ x ≤ order - 1) (secret : ℤ) (coefficients : List ℤ)
    (enough : (secret :: coefficients).length ≤ points.length) :
    ∃ w : ℤ → ℤ, (∀ x ∈ points, lagrange x points = .ok (w x)) ∧
      (points.map fun x => w x * evaluate (secret :: coefficients) x).sum ≡ secret
        [ZMOD order] := by
  have reduced : ∀ x ∈ points, 0 ≤ x ∧ x < order := by
    intro x member
    obtain ⟨positive, below⟩ := range x member
    omega
  choose! w isOk value using fun x member => lagrange_eq_ok nodup reduced (x := x) member
  refine ⟨w, isOk, (ZMod.intCast_eq_intCast_iff _ _ _).mp ?_⟩
  calc (((points.map fun x => w x * evaluate (secret :: coefficients) x).sum : ℤ) : ZMod order)
      = (points.map fun x => (w x : ZMod order) * evaluate (secret :: coefficients) x).sum := by
        rw [Int.cast_list_sum, List.map_map]
        refine congrArg List.sum (List.map_congr_left fun x _ => ?_)
        simp
    _ = (points.map fun x => weight points x * evaluate (secret :: coefficients) x).sum := by
        refine congrArg List.sum (List.map_congr_left fun x member => ?_)
        rw [value x member]
    _ = secret := sum_weight_mul_evaluate nodup reduced secret coefficients (by simpa using enough)

/-- The line `7 - x` is given back by its values at three points, one more than it needs and with
the last one among them. -/
theorem lagrange_reconstructs_line :
    [(order : ℤ) - 1, 2, 1].Nodup ∧
    (∀ x ∈ [(order : ℤ) - 1, 2, 1], 1 ≤ x ∧ x ≤ order - 1) ∧
    ∃ w : ℤ → ℤ, (∀ x ∈ [(order : ℤ) - 1, 2, 1], lagrange x [(order : ℤ) - 1, 2, 1] = .ok (w x)) ∧
      w (order - 1) * evaluate [7, -1] (order - 1) + w 2 * evaluate [7, -1] 2 +
        w 1 * evaluate [7, -1] 1 ≡ 7 [ZMOD order] := by
  have nodup : [(order : ℤ) - 1, 2, 1].Nodup := by decide
  have range : ∀ x ∈ [(order : ℤ) - 1, 2, 1], 1 ≤ x ∧ x ≤ order - 1 := by decide
  obtain ⟨w, isOk, sum⟩ := lagrange_reconstructs nodup range 7 [-1] (by decide)
  refine ⟨nodup, range, w, isOk, ?_⟩
  simpa [add_assoc] using sum

end Sharing

end Quorum
