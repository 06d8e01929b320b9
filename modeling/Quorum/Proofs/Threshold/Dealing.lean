import Quorum.Proofs.Threshold.Commitments

/-!
# What a dealer hands out

Drawn coefficients are never zero, so their commitments are points that can be encoded and dealing
succeeds for every threshold between zero and the number of parties. The shares are the values of
the sharing polynomial at the points `1` to `n`.

## Main definitions

* `Threshold.coefficients` — the coefficients that draws select
* `Threshold.Dealt` — a key set and secret shares of one polynomial

## Main results

* `Threshold.generate_eq_ok` — dealing succeeds
* `Threshold.dealt_of_generate` — what was dealt belongs to the polynomial of the draws
-/

namespace Quorum

namespace Threshold

/-- The coefficients of the sharing polynomial that draws select, the secret first. -/
def coefficients (threshold : ℕ) (draw : ℕ → ℕ) : List ℤ :=
  (List.range (threshold + 1)).map fun j => (Scalar.ofDraw (draw j) : ℤ)

/-- A key set with shares of the polynomial whose coefficients it commits to. -/
structure Dealt (keys : KeySet) (secrets : List SecretShare) (coefficients : List ℤ) : Prop where
  /-- No coefficient is zero. -/
  nonzero : ∀ a ∈ coefficients, (a : ZMod order) ≠ 0
  /-- There is one more coefficient than the threshold says. -/
  length : coefficients.length = keys.threshold + 1
  /-- The key set holds the commitments. -/
  commitments : keys.commitments = coefficients.map fun a => (baseMultiple a).encoded
  /-- Every share is a value of the polynomial. -/
  value : ∀ s ∈ secrets, s.value = Sharing.evaluate coefficients (s.index + 1)
  /-- The points of the shares lie below the order. -/
  range : ∀ s ∈ secrets, 0 ≤ s.index ∧ s.index + 1 < order

/-- Dealing with at least two coefficients that are not zero succeeds. -/
theorem deal_eq_ok (parties : ℕ) (coefficients : List ℤ) (large : 2 ≤ coefficients.length)
    (nonzero : ∀ a ∈ coefficients, (a : ZMod order) ≠ 0) :
    ∃ keys : KeySet, keys.threshold + 1 = coefficients.length ∧
      keys.commitments = coefficients.map (fun a => (baseMultiple a).encoded) ∧
      deal parties coefficients = .ok (keys, (List.range parties).map fun (i : ℕ) =>
        ⟨i, Sharing.evaluate coefficients (i + 1)⟩) := by
  obtain ⟨keys, threshold, commitments, made⟩ := exists_keySet large nonzero
  refine ⟨keys, threshold, commitments, ?_⟩
  have committed : (coefficients.mapM fun a => do
      let P ← Curve.p256.mulBase a
      Curve.compress P : Outcome (List Bytes)) = _ := commitments_eq_ok nonzero
  simp only [deal, committed, made, Outcome.bind_ok]
  rfl

theorem length_coefficients (threshold : ℕ) (draw : ℕ → ℕ) :
    (coefficients threshold draw).length = threshold + 1 := by
  simp [coefficients]

/-- Drawn coefficients are not zero. -/
theorem coefficients_ne_zero {threshold : ℕ} {draw : ℕ → ℕ} :
    ∀ a ∈ coefficients threshold draw, (a : ZMod order) ≠ 0 := by
  rw [coefficients, List.forall_mem_map]
  exact fun j _ => Scalar.cast_ofDraw_ne_zero (draw j)

/-- The secret is the coefficient of the first draw. -/
theorem coefficients_eq_cons (threshold : ℕ) (draw : ℕ → ℕ) :
    ∃ rest, coefficients threshold draw = (Scalar.ofDraw (draw 0) : ℤ) :: rest ∧
      rest.length = threshold := by
  refine ⟨(List.range threshold).map fun j => (Scalar.ofDraw (draw (j + 1)) : ℤ), ?_, by simp⟩
  rw [coefficients, List.range_succ_eq_map, List.map_cons, List.map_map]
  rfl

section Generate

variable {parties threshold : ℤ} (draw : ℕ → ℕ)

/-- Dealing succeeds for every threshold between zero and the number of parties, and every share
is the value of the drawn polynomial at the point after its index. -/
theorem generate_eq_ok (positive : 0 < threshold) (below : threshold < parties) :
    ∃ keys : KeySet, (keys.threshold : ℤ) = threshold ∧
      keys.commitments = (coefficients threshold.toNat draw).map
        (fun a => (baseMultiple a).encoded) ∧
      generate parties threshold draw =
        .ok (keys, (List.range parties.toNat).map fun (i : ℕ) =>
          ⟨i, Sharing.evaluate (coefficients threshold.toNat draw) (i + 1)⟩) := by
  have length := length_coefficients threshold.toNat draw
  obtain ⟨keys, threshold_eq, commitments, dealt⟩ :=
    deal_eq_ok parties.toNat (coefficients threshold.toNat draw) (by omega) coefficients_ne_zero
  refine ⟨keys, by omega, commitments, ?_⟩
  rw [generate, if_neg (by omega)]
  exact dealt

variable {draw : ℕ → ℕ} {keys : KeySet} {secrets : List SecretShare}
  (isOk : generate parties threshold draw = .ok (keys, secrets))

include isOk

/-- Dealing takes a threshold between zero and the number of parties. -/
theorem bounds_of_generate : 0 < threshold ∧ threshold < parties := by
  by_contra outside
  rw [generate, if_pos (Or.inr outside)] at isOk
  cases isOk

theorem secrets_of_generate : secrets = (List.range parties.toNat).map fun (i : ℕ) =>
    ⟨i, Sharing.evaluate (coefficients threshold.toNat draw) (i + 1)⟩ := by
  obtain ⟨positive, below⟩ := bounds_of_generate isOk
  obtain ⟨keys', -, -, generated⟩ := generate_eq_ok draw positive below
  rw [generated, Except.ok.injEq, Prod.mk.injEq] at isOk
  exact isOk.2.symm

/-- What was dealt belongs to the polynomial of the draws. -/
theorem dealt_of_generate (small : parties < order) :
    Dealt keys secrets (coefficients threshold.toNat draw) := by
  obtain ⟨positive, below⟩ := bounds_of_generate isOk
  obtain ⟨keys', threshold_eq, commitments, generated⟩ := generate_eq_ok draw positive below
  rw [generated, Except.ok.injEq, Prod.mk.injEq] at isOk
  obtain ⟨rfl, rfl⟩ := isOk
  refine ⟨coefficients_ne_zero, ?_, commitments, ?_, ?_⟩
  · rw [length_coefficients]
    omega
  · rw [List.forall_mem_map]
    exact fun i _ => rfl
  · rw [List.forall_mem_map]
    intro i member
    have := List.mem_range.mp member
    simp only
    exact ⟨by omega, by omega⟩

end Generate

namespace Dealt

variable {keys : KeySet} {secrets : List SecretShare} {secret : ℤ} {rest : List ℤ}

/-- The public key is the commitment to the secret. -/
theorem publicKey_eq (dealt : Dealt keys secrets (secret :: rest)) :
    keys.publicKey = (baseMultiple secret).encoded := by
  rw [KeySet.publicKey, dealt.commitments, List.map_cons, List.headD_cons]

/-- The public share of an actor is the multiple of the base point by its secret share. -/
theorem publicShare_eq_ok {coefficients : List ℤ} (dealt : Dealt keys secrets coefficients) {i : ℤ}
    (nonneg : 0 ≤ i) (nonzero : Sharing.evaluate coefficients (i + 1) ≠ 0) :
    keys.publicShare i = .ok (baseMultiple (Sharing.evaluate coefficients (i + 1))).encoded := by
  rw [KeySet.publicShare_eq_commit dealt.nonzero dealt.commitments nonneg,
    commit_eq_ok (Sharing.cast_evaluate_ne_zero nonzero)]

/-- A share that is not zero lies strictly between zero and the order. -/
theorem value_mem_range {coefficients : List ℤ} (dealt : Dealt keys secrets coefficients)
    {s : SecretShare} (member : s ∈ secrets) (nonzero : s.value ≠ 0) :
    0 < s.value ∧ s.value < order := by
  have range := Sharing.evaluate_mem_range coefficients (s.index + 1)
  rw [← dealt.value s member] at range
  exact ⟨lt_of_le_of_ne range.1 nonzero.symm, range.2⟩

end Dealt

end Threshold

end Quorum
