import Quorum.Proofs.Sharing
import Quorum.Proofs.Threshold.Ciphertext
import Quorum.Threshold.Scheme

/-!
# Public shares are commitments to shares

A key set holds a commitment to every coefficient of the sharing polynomial: the multiple of the
base point by the coefficient. The public share of an actor comes out of the commitments alone, each
taken as often as the power of the actor's point says. Multiples of the base point add up like their
scalars, so this sum is the multiple by the value of the polynomial, which is the actor's secret
share.

Two ways of evaluating meet here: Horner's rule on scalars, from the last coefficient down, and the
sum of powers on points, from the first coefficient up. A value of zero is committed to by the point
at infinity, which has no encoding, so that actor has no public share.

## Main definitions

* `Threshold.commit` — the encoded commitment to a scalar

## Main results

* `Threshold.commit_eq_ok`, `Threshold.commit_eq_error` — which scalars have a commitment
* `KeySet.combineAt_eq_ok` — commitments weighted by powers add up to the value
* `KeySet.publicShare_eq_commit` — a public share is the commitment to a value of the polynomial
* `Threshold.publicShares_commit_to_shares` — which public shares there are, for any coefficients
-/

namespace Quorum

open Sharing (evaluate polynomial)

namespace Threshold

variable {a : ℤ} {coefficients : List ℤ}

/-- The commitment to a scalar: its multiple of the base point, encoded. -/
def commit (a : ℤ) : Outcome Bytes := do
  let P ← Curve.p256.mulBase a
  Curve.compress P

theorem commit_eq_compress (a : ℤ) : commit a = Curve.compress (baseMultiple a).point := by
  rw [commit, mulBase_eq_baseMultiple, Outcome.lift_ok, Outcome.bind_ok]

/-- A scalar that is not zero has a commitment. -/
theorem commit_eq_ok (nonzero : (a : ZMod order) ≠ 0) :
    commit a = .ok (baseMultiple a).encoded := by
  rw [commit_eq_compress, Curve.compress_point (baseMultiple_ne_zero nonzero)]

/-- Zero has none. -/
theorem commit_eq_error (zero : (a : ZMod order) = 0) :
    commit a = .error (.value .identityEncoding) := by
  rw [commit_eq_compress, baseMultiple, zero, zero_smul]
  rfl

/-- The commitments to coefficients that are not zero are encoded. -/
theorem commitments_eq_ok (nonzero : ∀ a ∈ coefficients, (a : ZMod order) ≠ 0) :
    coefficients.mapM commit = .ok (coefficients.map fun a => (baseMultiple a).encoded) :=
  Outcome.mapM_eq_ok fun a member => commit_eq_ok (nonzero a member)

/-- Commitments to at least two coefficients that are not zero are a key set. -/
theorem exists_keySet (large : 2 ≤ coefficients.length)
    (nonzero : ∀ a ∈ coefficients, (a : ZMod order) ≠ 0) :
    ∃ keys : KeySet, keys.threshold + 1 = coefficients.length ∧
      keys.commitments = coefficients.map (fun a => (baseMultiple a).encoded) ∧
      KeySet.ofParts (coefficients.length - 1)
        (coefficients.map fun a => (baseMultiple a).encoded) = .ok keys := by
  set commitments := coefficients.map fun a => (baseMultiple a).encoded with commitments_def
  have points : ∀ data ∈ commitments, isPoint data = true := by
    rw [commitments_def, List.forall_mem_map]
    intro a member
    rw [isPoint, decodePoint_encoded (baseMultiple_ne_zero (nonzero a member))]
    rfl
  have lengths : commitments.length = coefficients.length := List.length_map _
  -- The rules that a key set checks.
  have rules : 1 ≤ ((coefficients.length : ℤ) - 1).toNat ∧
      commitments.length = ((coefficients.length : ℤ) - 1).toNat + 1 ∧
        ∀ data ∈ commitments, isPoint data = true := ⟨by omega, by omega, points⟩
  refine ⟨⟨_, commitments, rules.1, rules.2.1, rules.2.2⟩, by simp only; omega, rfl, ?_⟩
  rw [KeySet.ofParts, dif_pos rules]

end Threshold

namespace KeySet

variable {coefficients : List ℤ} (nonzero : ∀ a ∈ coefficients, (a : ZMod order) ≠ 0)

include nonzero

/-- The commitments, weighted by the powers of `x`, add up to the value of the polynomial times the
base point. -/
theorem combineAt_eq_ok (x power : ℤ) (acc : P256) :
    combineAt x power acc.point (coefficients.map fun a => (baseMultiple a).encoded) =
      .ok (acc + ((power : ZMod order) * (polynomial coefficients).eval (x : ZMod order)) •
        (Curve.Element.base : P256)).point := by
  -- The power and the sum so far change from one commitment to the next.
  induction coefficients generalizing power acc with
  | nil => simp [combineAt, polynomial]
  | cons a coefficients ih =>
    obtain ⟨first, rest⟩ := List.forall_mem_cons.mp nonzero
    rw [List.map_cons, combineAt, decodePoint_encoded (baseMultiple_ne_zero first)]
    simp only [Outcome.bind_ok, Curve.mul_eq_smul, Curve.add_point, ih rest]
    congr 2
    rw [add_assoc, baseMultiple, smul_smul, ← add_smul, ZMod.intCast_mod, polynomial]
    congr 2
    push_cast
    simp only [Polynomial.eval_add, Polynomial.eval_mul, Polynomial.eval_X, Polynomial.eval_C]
    ring

/-- The public share of an actor is the commitment to the value of the polynomial at its point,
whether or not there is such a commitment. -/
theorem publicShare_eq_commit {keys : KeySet}
    (commitments : keys.commitments = coefficients.map fun a => (baseMultiple a).encoded) {i : ℤ}
    (nonneg : 0 ≤ i) : keys.publicShare i = Threshold.commit (evaluate coefficients (i + 1)) := by
  have combined := combineAt_eq_ok nonzero (i + 1) 1 0
  rw [Int.cast_one, one_mul, zero_add, ← Sharing.cast_evaluate,
    Curve.Element.point_zero] at combined
  rw [publicShare, if_neg (by omega), commitments, combined, Threshold.commit_eq_compress,
    Outcome.lift_ok, Outcome.bind_ok]
  rfl

end KeySet

namespace Threshold

/-- At least two coefficients between zero and the order have commitments, and these are a key set.
For every index, whether there is such a party or not, the public share is the commitment to the
value of the polynomial at the point after the index. It is refused when the value is zero, and only
then. -/
theorem publicShares_commit_to_shares (coefficients : List ℤ) (large : 2 ≤ coefficients.length)
    (range : ∀ a ∈ coefficients, 0 < a ∧ a < order) :
    ∃ commitments keys, coefficients.mapM commit = .ok commitments ∧
      KeySet.ofParts (coefficients.length - 1) commitments = .ok keys ∧
      ∀ i : ℤ, 0 ≤ i →
        (evaluate coefficients (i + 1) ≠ 0 → ∃ publicShare,
          commit (evaluate coefficients (i + 1)) = .ok publicShare ∧
            keys.publicShare i = .ok publicShare) ∧
        ((∃ cause, keys.publicShare i = .error (.value cause)) ↔
          evaluate coefficients (i + 1) = 0) := by
  have nonzero : ∀ a ∈ coefficients, (a : ZMod order) ≠ 0 := fun a member =>
    Scalar.cast_ne_zero (range a member).1 (range a member).2
  obtain ⟨keys, -, commitments, made⟩ := exists_keySet large nonzero
  refine ⟨_, keys, commitments_eq_ok nonzero, made, fun i nonneg => ?_⟩
  rw [KeySet.publicShare_eq_commit nonzero commitments nonneg]
  obtain ⟨value_nonneg, value_lt⟩ := Sharing.evaluate_mem_range coefficients (i + 1)
  rcases value_nonneg.eq_or_lt with zero | positive
  · have refused := commit_eq_error (a := evaluate coefficients (i + 1)) (by rw [← zero]; rfl)
    exact ⟨fun apart => absurd zero.symm apart, fun _ => zero.symm, fun _ => ⟨_, refused⟩⟩
  · have committed := commit_eq_ok (Scalar.cast_ne_zero positive value_lt)
    refine ⟨fun _ => ⟨_, committed, committed⟩, fun ⟨cause, refused⟩ => ?_, fun zero => ?_⟩
    · rw [committed] at refused
      cases refused
    · exact absurd zero positive.ne'

/-- The line `x - 1` gives the first actor the value zero, and so no public share. The second actor
holds the value one. -/
theorem publicShares_of_vanishing_line :
    ∃ commitments keys, [(order : ℤ) - 1, 1].mapM commit = .ok commitments ∧
      KeySet.ofParts 1 commitments = .ok keys ∧
      (∃ cause, keys.publicShare 0 = .error (.value cause)) ∧
      ∃ publicShare, commit 1 = .ok publicShare ∧ keys.publicShare 1 = .ok publicShare := by
  obtain ⟨commitments, keys, committed, made, shares⟩ :=
    publicShares_commit_to_shares [(order : ℤ) - 1, 1] le_rfl (by decide)
  have first : evaluate [(order : ℤ) - 1, 1] (0 + 1) = 0 := by decide
  have second : evaluate [(order : ℤ) - 1, 1] (1 + 1) = 1 := by decide
  refine ⟨commitments, keys, committed, made, (shares 0 le_rfl).2.mpr first, ?_⟩
  obtain ⟨given, -⟩ := shares 1 zero_le_one
  rw [second] at given
  exact given one_ne_zero

end Threshold

end Quorum
