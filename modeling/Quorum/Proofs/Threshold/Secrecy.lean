import Quorum.Proofs.Sharing.Interpolation
import Quorum.Proofs.Threshold.Dealing

/-!
# What a coalition learns about the secret

Through the shares of at most `t` actors there is a sharing polynomial for every secret: it differs
from the dealt one by a multiple of the polynomial that is one at zero and vanishes at the points of
the coalition. A dealer draws no coefficient that is zero, so a secret is ruled out where a
coefficient of its polynomial vanishes. Each of the `t` coefficients above the secret vanishes for
at most one secret, and so at most `t` of all secrets are ruled out.

## Main definitions

* `Sharing.mask` — the polynomial that is one at zero and vanishes at the points of a coalition
* `Sharing.moved` — a sharing polynomial moved to another secret
* `Threshold.Explains` — a dealing of a secret can hand out given shares

## Main results

* `Sharing.coeff_moved_ne_zero` — a coefficient vanishes for one secret at most
* `Threshold.coalition_excludes_few_secrets` — shares of few actors rule out few secrets
* `Threshold.share_excludes_own_value` — a share can rule out a secret
-/

namespace Quorum

namespace Sharing

open Polynomial

/-- The polynomial that is one at zero and vanishes at the points of a coalition. -/
noncomputable def mask (coalition : Finset ℕ) : (ZMod order)[X] :=
  ∏ i ∈ coalition, (1 - C ((i : ZMod order) + 1)⁻¹ * X)

/-- A sharing polynomial moved to another secret, with the same values at the points of a
coalition. -/
noncomputable def moved (f : (ZMod order)[X]) (coalition : Finset ℕ) (secret : ZMod order) :
    (ZMod order)[X] :=
  f + C (secret - f.eval 0) * mask coalition

section Moved

variable {f : (ZMod order)[X]} {coalition : Finset ℕ} {secret : ZMod order}

theorem eval_zero_mask : (mask coalition).eval 0 = 1 := by
  simp [mask, eval_prod]

theorem eval_mask {i : ℕ} (member : i ∈ coalition) (nonzero : (i : ZMod order) + 1 ≠ 0) :
    (mask coalition).eval ((i : ZMod order) + 1) = 0 := by
  rw [mask, eval_prod]
  refine Finset.prod_eq_zero member ?_
  simp [inv_mul_cancel₀ nonzero]

theorem natDegree_mask_le : (mask coalition).natDegree ≤ coalition.card := by
  have factor (i : ℕ) : (1 - C ((i : ZMod order) + 1)⁻¹ * X).natDegree ≤ 1 := by
    compute_degree
  rw [mask]
  calc
    _ ≤ _ := natDegree_prod_le _ _
    _ ≤ ∑ _i ∈ coalition, 1 := Finset.sum_le_sum fun i _ => factor i
    _ = coalition.card := (Finset.card_eq_sum_ones coalition).symm

theorem eval_zero_moved : (moved f coalition secret).eval 0 = secret := by
  rw [moved, eval_add, eval_mul, eval_C, eval_zero_mask]
  ring

theorem eval_moved {i : ℕ} (member : i ∈ coalition) (nonzero : (i : ZMod order) + 1 ≠ 0) :
    (moved f coalition secret).eval ((i : ZMod order) + 1) = f.eval ((i : ZMod order) + 1) := by
  rw [moved, eval_add, eval_mul, eval_mask member nonzero, mul_zero, add_zero]

theorem degree_moved_lt {n : ℕ} (degree : f.degree < n) (few : coalition.card < n) :
    (moved f coalition secret).degree < n := by
  have mask_lt : (mask coalition).degree < n :=
    degree_le_natDegree.trans_lt (by exact_mod_cast natDegree_mask_le.trans_lt few)
  refine (degree_add_le _ _).trans_lt (max_lt degree ?_)
  rw [← smul_eq_C_mul]
  exact (degree_smul_le _ _).trans_lt mask_lt

/-- A coefficient that the dealt polynomial has does not vanish, but for one secret. -/
theorem coeff_moved_ne_zero {j : ℕ} (dealt : f.coeff j ≠ 0)
    (other : secret ≠ f.eval 0 - f.coeff j / (mask coalition).coeff j) :
    (moved f coalition secret).coeff j ≠ 0 := by
  rw [moved, coeff_add, coeff_C_mul]
  intro vanishes
  -- Where the mask has no coefficient, the secret has no say in it.
  by_cases none : (mask coalition).coeff j = 0
  · rw [none, mul_zero, add_zero] at vanishes
    exact dealt vanishes
  · refine other ?_
    field_simp
    linear_combination vanishes

end Moved

section Residues

variable {n : ℕ} {f : (ZMod order)[X]}

/-- The first coefficient is the value at zero. -/
theorem residues_succ (secret : ℤ) (positive : 0 < secret) (below : secret < order)
    (value : f.eval 0 = secret) :
    ∃ rest, residues (n + 1) f = secret :: rest ∧ rest.length = n := by
  refine ⟨(List.range n).map fun j => ((f.coeff (j + 1)).val : ℤ), ?_, by simp⟩
  have first : ((f.coeff 0).val : ℤ) = secret := by
    rw [coeff_zero_eq_eval_zero, value, ZMod.val_intCast, Int.emod_eq_of_lt positive.le below]
  rw [residues, List.range_succ_eq_map, List.map_cons, List.map_map, first]
  rfl

end Residues

end Sharing

namespace Threshold

open Polynomial Sharing

/-- A dealing of a secret can hand out given shares. -/
def Explains (parties threshold secret : ℤ) (known : List SecretShare) : Prop :=
  ∃ draw keys secrets, generate parties threshold draw = .ok (keys, secrets) ∧
    (Scalar.ofDraw (draw 0) : ℤ) = secret ∧ known ⊆ secrets

/-- Every list of coefficients that are not zero is drawn. -/
theorem exists_coefficients_eq {threshold : ℕ} {f : (ZMod order)[X]}
    (nonzero : ∀ j < threshold + 1, f.coeff j ≠ 0) :
    ∃ draw, coefficients threshold draw = residues (threshold + 1) f := by
  refine ⟨fun j => (f.coeff j).val - 1, List.map_congr_left fun j member => ?_⟩
  have positive : (f.coeff j).val ≠ 0 :=
    (ZMod.val_eq_zero _).not.mpr (nonzero j (List.mem_range.mp member))
  have below := (f.coeff j).val_lt
  have drawn : Scalar.ofDraw ((f.coeff j).val - 1) = (f.coeff j).val := by
    rw [Scalar.ofDraw, Nat.mod_eq_of_lt (by omega), Nat.sub_add_cancel (by omega)]
  rw [drawn]

/-- The points of parties are not zero in the field of scalars. -/
theorem point_ne_zero {i : ℕ} (below : (i : ℤ) + 1 < order) : (i : ZMod order) + 1 ≠ 0 := by
  have nonzero := Scalar.cast_ne_zero (k := i + 1) (by omega) below
  push_cast at nonzero
  exact nonzero

/-- No coefficient of a drawn polynomial vanishes. -/
theorem coeff_drawn_ne_zero {threshold : ℕ} (draw : ℕ → ℕ) {j : ℕ} (below : j < threshold + 1) :
    (polynomial (coefficients threshold draw)).coeff j ≠ 0 := by
  have inside : j < (coefficients threshold draw).length := by rwa [length_coefficients]
  rw [coeff_polynomial, List.getD_eq_getElem?_getD, List.getElem?_eq_getElem inside,
    Option.getD_some]
  exact coefficients_ne_zero _ (List.getElem_mem inside)

theorem degree_drawn_lt (threshold : ℕ) (draw : ℕ → ℕ) :
    (polynomial (coefficients threshold draw)).degree < (threshold + 1 : ℕ) := by
  have degree := degree_polynomial_lt (coefficients threshold draw)
  rwa [length_coefficients] at degree

/-- The coefficients of the drawn polynomial moved to another secret give a coalition of `t` actors
the same shares. -/
theorem exists_moved {threshold : ℕ} (draw : ℕ → ℕ) {coalition : Finset ℕ}
    (card : coalition.card = threshold) (small : ∀ i ∈ coalition, (i : ℤ) + 1 < order)
    {secret : ℤ} (positive : 0 < secret) (below : secret < order) :
    ∃ rest, residues (threshold + 1)
        (moved (polynomial (coefficients threshold draw)) coalition secret) = secret :: rest ∧
      rest.length = threshold ∧
      ∀ i ∈ coalition, evaluate (secret :: rest) (i + 1) =
        evaluate (coefficients threshold draw) (i + 1) := by
  obtain ⟨rest, split, length⟩ :=
    residues_succ (n := threshold) secret positive below eval_zero_moved
  refine ⟨rest, split, length, fun i member => evaluate_congr ?_⟩
  rw [← split, polynomial_residues (degree_moved_lt (degree_drawn_lt threshold draw) (by omega))]
  push_cast
  exact eval_moved member (point_ne_zero (small i member))

section Coalition

variable {parties threshold : ℤ} {draw : ℕ → ℕ} {keys : KeySet} {secrets : List SecretShare}
  {known : List SecretShare}

/-- Known shares, at most `t` of them, are shares of a coalition of `t` actors. -/
theorem exists_coalition (isOk : generate parties threshold draw = .ok (keys, secrets))
    (dealt : known ⊆ secrets) (few : known.length ≤ threshold) :
    ∃ coalition ⊆ Finset.range parties.toNat, coalition.card = threshold.toNat ∧
      ∀ s ∈ known, ∃ i ∈ coalition,
        s = ⟨i, evaluate (coefficients threshold.toNat draw) (i + 1)⟩ := by
  obtain ⟨-, below⟩ := bounds_of_generate isOk
  have holder : ∀ s ∈ known, ∃ i < parties.toNat,
      s = ⟨i, evaluate (coefficients threshold.toNat draw) (i + 1)⟩ := by
    intro s member
    have handed := dealt member
    rw [secrets_of_generate isOk] at handed
    obtain ⟨i, i_mem, rfl⟩ := List.mem_map.mp handed
    exact ⟨i, List.mem_range.mp i_mem, rfl⟩
  -- The holders are filled up to `t` actors, of whom there are enough.
  set holders := (known.map fun s => s.index.toNat).toFinset with holders_def
  have holders_sub : holders ⊆ Finset.range parties.toNat := by
    intro i member
    obtain ⟨s, known_mem, rfl⟩ := List.mem_map.mp (List.mem_toFinset.mp member)
    obtain ⟨i, i_lt, rfl⟩ := holder s known_mem
    exact Finset.mem_range.mpr i_lt
  have holders_card : holders.card ≤ threshold.toNat := by
    have := List.toFinset_card_le (known.map fun s => s.index.toNat)
    rw [List.length_map, ← holders_def] at this
    omega
  obtain ⟨coalition, within, range, card⟩ := Finset.exists_subsuperset_card_eq holders_sub
    holders_card (by rw [Finset.card_range]; omega)
  refine ⟨coalition, range, card, fun s member => ?_⟩
  obtain ⟨i, -, rfl⟩ := holder s member
  have held : i ∈ holders :=
    List.mem_toFinset.mpr (List.mem_map.mpr ⟨_, member, Int.toNat_natCast i⟩)
  exact ⟨i, within held, rfl⟩

/-- A polynomial of which no coefficient vanishes can be dealt, with the shares that it gives. -/
theorem explains_of_coeff_ne_zero (positive : 0 < threshold) (below : threshold < parties)
    {f : (ZMod order)[X]} (nonzero : ∀ j < threshold.toNat + 1, f.coeff j ≠ 0) {secret : ℤ}
    {rest : List ℤ} (split : residues (threshold.toNat + 1) f = secret :: rest)
    (shares : ∀ s ∈ known, ∃ i < parties.toNat, s = ⟨i, evaluate (secret :: rest) (i + 1)⟩) :
    Explains parties threshold secret known := by
  obtain ⟨draw, drawn⟩ := exists_coefficients_eq nonzero
  obtain ⟨keys, -, -, isOk⟩ := generate_eq_ok draw positive below
  obtain ⟨rest', cons, -⟩ := coefficients_eq_cons threshold.toNat draw
  rw [split] at drawn
  refine ⟨draw, keys, _, isOk, (List.cons.inj (cons.symm.trans drawn)).1, fun s member => ?_⟩
  obtain ⟨i, i_lt, rfl⟩ := shares s member
  rw [drawn]
  exact List.mem_map.mpr ⟨i, List.mem_range.mpr i_lt, rfl⟩

/-- The shares of at most `t` actors fit a polynomial for every secret, and a dealer can draw it
unless a coefficient of it is zero. That happens for `t` secrets at most, so the shares rule out no
more than `t` of all secrets. -/
theorem coalition_excludes_few_secrets (positive : 0 < threshold) (below : threshold < parties)
    (small : parties < order) (draw : ℕ → ℕ) :
    ∃ keys secrets, generate parties threshold draw = .ok (keys, secrets) ∧
      ∀ known : List SecretShare, known ⊆ secrets → known.length ≤ threshold →
        (∀ secret : ℤ, 0 < secret → secret < order → ∃ rest : List ℤ,
          rest.length = threshold ∧ (∀ a ∈ rest, 0 ≤ a ∧ a < order) ∧
          (∀ s ∈ known, s.value = evaluate (secret :: rest) (s.index + 1)) ∧
          (0 ∉ rest → Explains parties threshold secret known)) ∧
        ∃ excluded : Finset ℤ, excluded.card ≤ threshold ∧
          ∀ secret : ℤ, 0 < secret → secret < order → secret ∉ excluded →
            Explains parties threshold secret known := by
  obtain ⟨keys, -, -, isOk⟩ := generate_eq_ok draw positive below
  refine ⟨keys, _, isOk, fun known dealt few => ?_⟩
  obtain ⟨coalition, members, card, holders⟩ := exists_coalition isOk dealt few
  have points : ∀ i ∈ coalition, (i : ℤ) + 1 < order := fun i member => by
    have := Finset.mem_range.mp (members member)
    omega
  set f := polynomial (coefficients threshold.toNat draw) with f_def
  -- The shares that a moved polynomial gives are those of the holders.
  have shares {secret : ℤ} {rest : List ℤ} (same : ∀ i ∈ coalition,
      evaluate (secret :: rest) (i + 1) = evaluate (coefficients threshold.toNat draw) (i + 1)) :
      ∀ s ∈ known, ∃ i < parties.toNat, s = ⟨i, evaluate (secret :: rest) (i + 1)⟩ := by
    intro s member
    obtain ⟨i, i_mem, rfl⟩ := holders s member
    exact ⟨i, Finset.mem_range.mp (members i_mem), by rw [same i i_mem]⟩
  constructor
  · intro secret secret_pos secret_lt
    obtain ⟨rest, split, length, same⟩ := exists_moved draw card points secret_pos secret_lt
    have range := residues_mem_range (n := threshold.toNat + 1) (f := moved f coalition secret)
    rw [split] at range
    refine ⟨rest, by omega, (List.forall_mem_cons.mp range).2, fun s member => ?_, fun noZero => ?_⟩
    · obtain ⟨i, -, rfl⟩ := shares same s member
      rfl
    · refine explains_of_coeff_ne_zero positive below (fun j j_lt vanishes => ?_) split
        (shares same)
      have zero_mem : (0 : ℤ) ∈ residues (threshold.toNat + 1) (moved f coalition secret) :=
        List.mem_map.mpr ⟨j, List.mem_range.mpr j_lt, by rw [vanishes]; rfl⟩
      rw [split] at zero_mem
      exact (List.mem_cons.mp zero_mem).elim secret_pos.ne noZero
  · -- The secrets for which one of the coefficients above the secret vanishes.
    let vanishing (j : ℕ) : ℤ := (f.eval 0 - f.coeff (j + 1) / (mask coalition).coeff (j + 1)).val
    refine ⟨(Finset.range threshold.toNat).image vanishing, ?_, ?_⟩
    · have card_le : ((Finset.range threshold.toNat).image vanishing).card ≤ threshold.toNat :=
        Finset.card_image_le.trans_eq (Finset.card_range _)
      omega
    · intro secret secret_pos secret_lt kept
      obtain ⟨rest, split, -, same⟩ := exists_moved draw card points secret_pos secret_lt
      refine explains_of_coeff_ne_zero positive below (fun j j_lt => ?_) split (shares same)
      obtain _ | j := j
      · rw [coeff_zero_eq_eval_zero, eval_zero_moved]
        exact Scalar.cast_ne_zero secret_pos secret_lt
      · refine coeff_moved_ne_zero (coeff_drawn_ne_zero draw j_lt) fun vanishes => kept ?_
        refine Finset.mem_image.mpr ⟨j, Finset.mem_range.mpr (by omega), ?_⟩
        simp only [vanishing]
        rw [← vanishes, ZMod.val_intCast, Int.emod_eq_of_lt secret_pos.le secret_lt]

/-- Two holders: whoever knows the share of the first cannot exclude both of two secrets. -/
theorem first_share_keeps_secrets :
    Explains 2 1 5 [⟨0, 2⟩] ∨ Explains 2 1 7 [⟨0, 2⟩] := by
  obtain ⟨keys, secrets, isOk, learns⟩ :=
    coalition_excludes_few_secrets (by decide : (0 : ℤ) < 1) one_lt_two (by decide) fun _ => 0
  have dealt : [(⟨0, 2⟩ : SecretShare)] ⊆ secrets := by
    rw [secrets_of_generate isOk]
    decide +kernel
  obtain ⟨-, excluded, few, explained⟩ := learns _ dealt le_rfl
  by_cases five : 5 ∈ excluded
  · refine .inr (explained 7 (by decide) (by decide) fun seven => ?_)
    have two : ({5, 7} : Finset ℤ) ⊆ excluded := by
      simp [Finset.insert_subset_iff, five, seven]
    have := Finset.card_le_card two
    simp at this
    omega
  · exact .inl (explained 5 (by decide) (by decide) five)

/-- Of a threshold of one, a share rules out its own value: the second coefficient would be zero. -/
theorem not_explains_value {secret : ℤ} {s : SecretShare} (small : parties < order)
    (same : s.value = secret) : ¬Explains parties 1 secret [s] := by
  rintro ⟨draw, keys, secrets, isOk, first, dealt⟩
  have member := dealt List.mem_cons_self
  rw [secrets_of_generate isOk] at member
  obtain ⟨i, i_mem, rfl⟩ := List.mem_map.mp member
  have i_lt := List.mem_range.mp i_mem
  have drawn : coefficients (1 : ℤ).toNat draw = [secret, (Scalar.ofDraw (draw 1) : ℤ)] := by
    rw [← first]
    rfl
  have value := congrArg (Int.cast (R := ZMod order)) same
  rw [drawn, cast_evaluate] at value
  simp only [polynomial, zero_mul, zero_add, eval_add, eval_mul, eval_C, eval_X, add_eq_right,
    Int.cast_add, Int.cast_natCast, Int.cast_one, mul_eq_zero] at value
  rcases value with zero | zero
  · exact Scalar.cast_ofDraw_ne_zero (draw 1) (by exact_mod_cast zero)
  · exact point_ne_zero (by omega) zero

end Coalition

/-- Two holders: the share of the first rules out its own value as the secret. -/
theorem share_excludes_own_value :
    ∃ keys secrets, generate 2 1 (fun _ => 0) = .ok (keys, secrets) ∧
      [(⟨0, 2⟩ : SecretShare)] ⊆ secrets ∧ ¬Explains 2 1 2 [⟨0, 2⟩] := by
  obtain ⟨keys, -, -, isOk⟩ := generate_eq_ok (fun _ => 0) (by decide : (0 : ℤ) < 1) one_lt_two
  refine ⟨keys, _, isOk, ?_, not_explains_value (by decide) rfl⟩
  decide +kernel

end Threshold

end Quorum
