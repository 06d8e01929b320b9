import Quorum.Proofs.Sharing

/-!
# Sharing polynomials are fixed by their values

A sharing polynomial with `t + 1` coefficients is fixed by its values at `t + 1` points that differ,
and every list of values is taken. Two polynomials with the same values differ by one that has more
roots than its degree allows, and the interpolation polynomial takes whatever values are asked for.

One value less fixes nothing: the value that is missing may be the one at zero, which is the secret.

## Main definitions

* `Sharing.vectors` — the lists of a given length whose members are reduced
* `Sharing.values` — the values of a sharing polynomial at points
* `Sharing.residues` — the first coefficients of a polynomial, reduced

## Main results

* `Sharing.residues_polynomial`, `Sharing.polynomial_residues` — reduced coefficients and
  polynomials of a bounded degree determine each other
* `Sharing.injOn_values`, `Sharing.surjOn_values` — values determine the coefficients and are
  arbitrary
* `Sharing.values_fix_coefficients` — both in one, and what one value less leaves open
-/

namespace Quorum

namespace Sharing

open Polynomial

/-- The lists of `n` reduced scalars. -/
def vectors (n : ℕ) : Set (List ℤ) := {v | v.length = n ∧ ∀ a ∈ v, 0 ≤ a ∧ a < order}

/-- The values at points of the polynomial with the given coefficients. -/
def values (points coefficients : List ℤ) : List ℤ := points.map (evaluate coefficients)

/-- The first `n` coefficients of a polynomial as reduced integers. -/
def residues (n : ℕ) (f : (ZMod order)[X]) : List ℤ :=
  (List.range n).map fun j => ((f.coeff j).val : ℤ)

section Coefficients

variable {n : ℕ} {f : (ZMod order)[X]}

theorem coeff_polynomial (coefficients : List ℤ) (j : ℕ) :
    (polynomial coefficients).coeff j = (coefficients.getD j 0 : ZMod order) := by
  induction coefficients generalizing j with
  | nil => simp [polynomial]
  | cons a coefficients ih =>
    rw [polynomial]
    cases j with
    | zero => simp
    | succ j =>
      rw [coeff_add, coeff_mul_X, coeff_C_succ, add_zero, ih]
      rfl

theorem residues_mem_range : ∀ a ∈ residues n f, 0 ≤ a ∧ a < order := by
  rw [residues, List.forall_mem_map]
  intro j _
  have below := (f.coeff j).val_lt
  omega

theorem residues_mem_vectors : residues n f ∈ vectors n :=
  ⟨by simp [residues], residues_mem_range⟩

/-- The coefficients below the degree give the polynomial back. -/
theorem polynomial_residues (degree : f.degree < n) : polynomial (residues n f) = f := by
  ext j
  rw [coeff_polynomial]
  rcases Nat.lt_or_ge j n with below | above
  · simp [residues, below]
  · have missing : (residues n f)[j]? = none := by simpa [residues] using above
    rw [List.getD_eq_getElem?_getD, missing, Option.getD_none, Int.cast_zero,
      coeff_eq_zero_of_degree_lt (degree.trans_le (by exact_mod_cast above))]

/-- Reduced coefficients are read off their polynomial. -/
theorem residues_polynomial {v : List ℤ} (member : v ∈ vectors n) :
    residues n (polynomial v) = v := by
  obtain ⟨length, range⟩ := member
  refine List.ext_getElem (by simp [residues, length]) fun j _ j_lt => ?_
  obtain ⟨nonneg, below⟩ := range _ (List.getElem_mem j_lt)
  simp only [residues, List.getElem_map, List.getElem_range]
  rw [coeff_polynomial, List.getD_eq_getElem?_getD, List.getElem?_eq_getElem j_lt,
    Option.getD_some, ZMod.val_intCast, Int.emod_eq_of_lt nonneg below]

/-- Polynomials with the same value give the same share. -/
theorem evaluate_congr {coefficients coefficients' : List ℤ} {x : ℤ}
    (same : (polynomial coefficients).eval (x : ZMod order) =
      (polynomial coefficients').eval (x : ZMod order)) :
    evaluate coefficients x = evaluate coefficients' x := by
  rw [← cast_evaluate, ← cast_evaluate] at same
  exact eq_of_cast_eq (evaluate_mem_range coefficients x) (evaluate_mem_range coefficients' x) same

end Coefficients

section Values

variable {points : List ℤ} (nodup : points.Nodup) (range : ∀ x ∈ points, 0 ≤ x ∧ x < order)

/-- Values are reduced, one for each point. -/
theorem mapsTo_values (points : List ℤ) :
    Set.MapsTo (values points) (vectors points.length) (vectors points.length) := by
  intro coefficients _
  refine ⟨List.length_map _, ?_⟩
  rw [values, List.forall_mem_map]
  exact fun x _ => evaluate_mem_range coefficients x

include nodup range

/-- Coefficients with the same values at as many points are the same. -/
theorem injOn_values : Set.InjOn (values points) (vectors points.length) := by
  intro v v_mem w w_mem same
  have card := List.toFinset_card_of_nodup nodup
  -- The difference would have a root at every point, one more than its degree.
  have equal : polynomial v = polynomial w := by
    apply eq_of_degrees_lt_of_eval_index_eq points.toFinset (cast_injOn range)
    · rw [card, ← v_mem.1]
      exact degree_polynomial_lt v
    · rw [card, ← w_mem.1]
      exact degree_polynomial_lt w
    · intro x x_mem
      have value := List.map_inj_left.mp same x (List.mem_toFinset.mp x_mem)
      rw [← cast_evaluate, ← cast_evaluate, value]
  rw [← residues_polynomial v_mem, equal, residues_polynomial w_mem]

/-- Any values at points are those of some coefficients, as many as there are points. -/
theorem surjOn_values : Set.SurjOn (values points) (vectors points.length)
    (vectors points.length) := by
  intro w w_mem
  obtain ⟨length, reduced⟩ := w_mem
  -- The polynomial that takes the value in `w` with the position of the point in the list.
  set f := Lagrange.interpolate points.toFinset (fun y : ℤ => (y : ZMod order))
    fun y => ((w.getD (points.idxOf y) 0 : ℤ) : ZMod order) with f_def
  have degree : f.degree < points.length := by
    rw [← List.toFinset_card_of_nodup nodup]
    exact Lagrange.degree_interpolate_lt _ (cast_injOn range)
  refine ⟨residues points.length f, residues_mem_vectors, ?_⟩
  refine List.ext_getElem (by rw [values, List.length_map, length]) fun j j_lt j_lt' => ?_
  rw [values, List.length_map] at j_lt
  have member : points[j] ∈ points.toFinset := List.mem_toFinset.mpr (List.getElem_mem j_lt)
  simp only [values, List.getElem_map]
  apply eq_of_cast_eq (evaluate_mem_range _ _) (reduced _ (List.getElem_mem j_lt'))
  calc
    _ = f.eval ((points[j] : ℤ) : ZMod order) := by
      rw [cast_evaluate, polynomial_residues degree]
    _ = ((w.getD (points.idxOf points[j]) 0 : ℤ) : ZMod order) :=
      Lagrange.eval_interpolate_at_node _ (cast_injOn range) member
    _ = ((w[j] : ℤ) : ZMod order) := by
      rw [nodup.idxOf_getElem j j_lt, List.getD_eq_getElem?_getD, List.getElem?_eq_getElem j_lt',
        Option.getD_some]

end Values

/-- The values of a sharing polynomial at `t + 1` distinct points fix its `t + 1` coefficients, and
are arbitrary. So the values at `t` distinct points other than zero leave the secret open: for every
secret there is one polynomial that has it as its value at zero. -/
theorem values_fix_coefficients :
    (∀ points : List ℤ, points.Nodup → (∀ x ∈ points, 0 ≤ x ∧ x < order) →
      Set.BijOn (values points) (vectors points.length) (vectors points.length)) ∧
    ∀ points : List ℤ, points.Nodup → (∀ x ∈ points, 0 < x ∧ x < order) →
      ∀ shares ∈ vectors points.length, ∀ secret : ℤ, 0 ≤ secret → secret < order →
        ∃! coefficients, coefficients ∈ vectors (points.length + 1) ∧
          evaluate coefficients 0 = secret ∧ values points coefficients = shares := by
  refine ⟨fun points nodup range =>
    ⟨mapsTo_values points, injOn_values nodup range, surjOn_values nodup range⟩, ?_⟩
  intro points nodup range shares known secret nonneg below
  -- The value at zero is one more value, at a point that is not among the others.
  have distinct : (0 :: points).Nodup :=
    List.nodup_cons.mpr ⟨fun zero => (range 0 zero).1.ne rfl, nodup⟩
  have reduced : ∀ x ∈ 0 :: points, 0 ≤ x ∧ x < order := by
    refine List.forall_mem_cons.mpr ⟨⟨le_rfl, by decide⟩, fun x member => ?_⟩
    exact ⟨(range x member).1.le, (range x member).2⟩
  have taken : secret :: shares ∈ vectors (0 :: points).length :=
    ⟨congrArg Nat.succ known.1, List.forall_mem_cons.mpr ⟨⟨nonneg, below⟩, known.2⟩⟩
  obtain ⟨v, v_mem, v_eq⟩ := surjOn_values distinct reduced taken
  obtain ⟨secret_eq, shares_eq⟩ := List.cons.inj v_eq
  refine ⟨v, ⟨v_mem, secret_eq, shares_eq⟩, ?_⟩
  rintro w ⟨w_mem, w_secret, w_shares⟩
  apply injOn_values distinct reduced w_mem v_mem
  rw [v_eq, ← w_secret, ← w_shares]
  rfl

/-- The value 7 at the point 2 leaves every secret open; with the secret 5 it fixes the line
`5 + x`. Two values at the points zero and the last one fix a line as well. -/
theorem values_fix_line :
    Set.BijOn (values [0, order - 1]) (vectors 2) (vectors 2) ∧
    (∀ secret : ℤ, 0 ≤ secret → secret < order → ∃! coefficients, coefficients ∈ vectors 2 ∧
      evaluate coefficients 0 = secret ∧ values [2] coefficients = [7]) ∧
    ∀ coefficients ∈ vectors 2, evaluate coefficients 0 = 5 → evaluate coefficients 2 = 7 →
      coefficients = [5, 1] := by
  have consistent : ∀ secret : ℤ, 0 ≤ secret → secret < order → ∃! coefficients,
      coefficients ∈ vectors 2 ∧ evaluate coefficients 0 = secret ∧ values [2] coefficients = [7] :=
    values_fix_coefficients.2 [2] (by simp) (by decide) [7] ⟨rfl, by decide⟩
  refine ⟨values_fix_coefficients.1 [0, order - 1] (by decide) (by decide), consistent, ?_⟩
  intro coefficients member secret value
  obtain ⟨fixed, -, unique⟩ := consistent 5 (by decide) (by decide)
  have line : [5, 1] ∈ vectors 2 := ⟨rfl, by decide⟩
  rw [unique coefficients ⟨member, secret, congrArg (fun a => [a]) value⟩,
    unique [5, 1] ⟨line, by decide, by decide⟩]

end Sharing

end Quorum
