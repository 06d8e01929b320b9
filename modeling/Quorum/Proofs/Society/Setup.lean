import Quorum.Fault.Family
import Quorum.Proofs.Society.Dealer
import Quorum.Proofs.Threshold.KeySet

/-!
# When setup succeeds, and what it leaves behind

A setup within its bounds depends on the draws only through the values of the sharing polynomial at
the points of the parties. The public share of a party is the commitment to such a value, so a party
whose value is zero has none and the whole setup is refused. Nothing else can go wrong.

The dealer keeps the material of a setup only after everything has been computed. A setup that fails
halfway therefore changes neither the material nor what is published, and after any number of setups
the dealer holds the outcome of one that succeeded.

## Main definitions

* `Dealer.setups` — the dealer after a number of setups

## Main results

* `Dealer.deal_cases` — the three ways in which dealing ends, and when
* `Dealer.deal_eq_threshold_iff`, `Dealer.deal_iff` — the same as equivalences
* `Dealer.share_of_deal` — what the key share of a party is
* `Dealer.exists_deal_of_setups` — where the material of a dealer comes from
* `Dealer.setup_deals_or_keeps` — when a setup succeeds, what it deals and what a failed one keeps
-/

namespace Quorum

open Sharing (evaluate)

namespace Dealer

variable {parties threshold : ℤ} {draw : ℕ → ℕ} {material : Material} {shares : List KeyShare}

/-- Dealing outside the bounds is refused. -/
theorem deal_of_outside (outside : ¬(0 < threshold ∧ threshold < parties)) :
    ∃ fault, deal parties threshold draw = .error fault ∧ fault.family? = some .threshold := by
  unfold deal
  split
  · exact ⟨_, rfl, rfl⟩
  · rw [if_pos (by omega)]
    exact ⟨_, rfl, rfl⟩

/-- Dealing within the bounds is refused when a party would get the share zero, since its public
share cannot be encoded. -/
theorem deal_of_zero (positive : 0 < threshold) (below : threshold < parties)
    (zero : ∃ i : ℕ, i < parties ∧
      evaluate (Threshold.coefficients threshold.toNat draw) (i + 1) = 0) :
    deal parties threshold draw = .error (.value .identityEncoding) := by
  obtain ⟨keys, -, -, generated⟩ := Threshold.generate_eq_ok draw positive below
  have refused : ((List.range parties.toNat).map fun (i : ℕ) =>
      (⟨i, evaluate (Threshold.coefficients threshold.toNat draw) (i + 1)⟩ : SecretShare)).mapM
        (keyShare keys) = .error (.value .identityEncoding) := by
    apply Outcome.mapM_eq_error
    · -- Every key share is made or refused for this reason.
      rw [List.forall_mem_map]
      intro i _
      rw [keyShare_of_generate generated (Int.natCast_nonneg i)]
      dsimp only
      by_cases value : evaluate (Threshold.coefficients threshold.toNat draw) (i + 1) = 0
      · right
        rw [value, Threshold.commit_eq_error Int.cast_zero, Outcome.bind_error]
      · left
        rw [Threshold.commit_eq_ok (Sharing.cast_evaluate_ne_zero value)]
        exact ⟨_, rfl⟩
    · obtain ⟨i, i_lt, value⟩ := zero
      refine ⟨_, List.mem_map_of_mem (List.mem_range.mpr (by omega : i < parties.toNat)), ?_⟩
      rw [keyShare_of_generate generated (Int.natCast_nonneg i)]
      dsimp only
      rw [value, Threshold.commit_eq_error Int.cast_zero, Outcome.bind_error]
  rw [deal, if_neg (by omega), if_neg (by omega), generated, Outcome.bind_ok]
  simp only [refused, Outcome.bind_error]

/-- Dealing is refused outside the bounds; within them it succeeds when no party gets the share
zero, and is refused otherwise. -/
theorem deal_cases (parties threshold : ℤ) (draw : ℕ → ℕ) :
    (¬(0 < threshold ∧ threshold < parties) ∧
      ∃ fault, deal parties threshold draw = .error fault ∧ fault.family? = some .threshold) ∨
    ((0 < threshold ∧ threshold < parties) ∧
      (∀ i : ℕ, i < parties →
        evaluate (Threshold.coefficients threshold.toNat draw) (i + 1) ≠ 0) ∧
      ∃ material shares, deal parties threshold draw = .ok (material, shares)) ∨
    ((0 < threshold ∧ threshold < parties) ∧
      (∃ i : ℕ, i < parties ∧
        evaluate (Threshold.coefficients threshold.toNat draw) (i + 1) = 0) ∧
      deal parties threshold draw = .error (.value .identityEncoding)) := by
  by_cases bounds : 0 < threshold ∧ threshold < parties
  · right
    by_cases zero : ∃ i : ℕ, i < parties ∧
        evaluate (Threshold.coefficients threshold.toNat draw) (i + 1) = 0
    · right
      exact ⟨bounds, zero, deal_of_zero bounds.1 bounds.2 zero⟩
    · left
      push Not at zero
      exact ⟨bounds, zero, deal_isOk bounds.1 bounds.2 zero⟩
  · left
    exact ⟨bounds, deal_of_outside bounds⟩

/-- Dealing is refused on its bounds exactly when they are violated. -/
theorem deal_eq_threshold_iff :
    (∃ fault, deal parties threshold draw = .error fault ∧ fault.family? = some .threshold) ↔
      ¬(0 < threshold ∧ threshold < parties) := by
  rcases deal_cases parties threshold draw with
    ⟨outside, refused⟩ | ⟨bounds, -, material, shares, dealt⟩ | ⟨bounds, -, refused⟩
  · exact iff_of_true refused outside
  · refine iff_of_false ?_ (not_not.mpr bounds)
    rintro ⟨fault, failed, -⟩
    rw [dealt] at failed
    cases failed
  · refine iff_of_false ?_ (not_not.mpr bounds)
    rintro ⟨fault, failed, family⟩
    rw [refused] at failed
    cases failed
    cases family

/-- Within the bounds dealing succeeds exactly when no party gets the share zero, and is refused
with a bad value exactly when one does. -/
theorem deal_iff (bounds : 0 < threshold ∧ threshold < parties) :
    ((∃ dealing, deal parties threshold draw = .ok dealing) ↔ ∀ i : ℕ, i < parties →
      evaluate (Threshold.coefficients threshold.toNat draw) (i + 1) ≠ 0) ∧
    (deal parties threshold draw = .error (.value .identityEncoding) ↔ ∃ i : ℕ, i < parties ∧
      evaluate (Threshold.coefficients threshold.toNat draw) (i + 1) = 0) := by
  rcases deal_cases parties threshold draw with
    ⟨outside, -⟩ | ⟨-, nonzero, material, shares, dealt⟩ | ⟨-, ⟨i, i_lt, zero⟩, refused⟩
  · exact absurd bounds outside
  · refine ⟨iff_of_true ⟨_, dealt⟩ nonzero, iff_of_false ?_ ?_⟩
    · rw [dealt]
      exact nofun
    · rintro ⟨i, i_lt, zero⟩
      exact nonzero i i_lt zero
  · refine ⟨iff_of_false ?_ ?_, iff_of_true refused ⟨i, i_lt, zero⟩⟩
    · rintro ⟨dealing, dealt⟩
      rw [refused] at dealt
      cases dealt
    · intro nonzero
      exact nonzero i i_lt zero

/-- A key share holds the value of the polynomial for its actor, and the commitment to this value as
its public share, which is also what the key set gives for the actor. -/
theorem share_of_deal (dealt : deal parties threshold draw = .ok (material, shares)) :
    ∀ s ∈ shares,
      s.secret = ⟨s.actor, evaluate (Threshold.coefficients threshold.toNat draw) (s.actor + 1)⟩ ∧
      Threshold.commit s.secret.value = .ok s.publicShare ∧
      material.keys.publicShare s.actor = .ok s.publicShare := by
  intro s member
  obtain ⟨secrets, generated, shared, -⟩ := deal_eq_ok_iff.mp dealt
  obtain ⟨secret, secret_mem, made⟩ := Outcome.exists_of_mem_mapM shared s member
  obtain ⟨publicShare, computed, made⟩ := Outcome.bind_eq_ok.mp made
  obtain rfl := Except.ok.inj made
  -- The secret share is one of those that were dealt.
  rw [Threshold.secrets_of_generate generated] at secret_mem
  obtain ⟨i, -, rfl⟩ := List.mem_map.mp secret_mem
  refine ⟨rfl, ?_, computed⟩
  rwa [Threshold.publicShare_of_generate generated (Int.natCast_nonneg i)] at computed

section Setup

variable {d : Dealer}

/-- A setup answers as dealing does. -/
theorem setup_fst (d : Dealer) (parties threshold : ℤ) (draw : ℕ → ℕ) :
    (d.setup parties threshold draw).1 = deal parties threshold draw := by
  unfold setup
  split
  · next dealt => exact dealt.symm
  · next failed => exact failed.symm

/-- After a setup that succeeded the dealer holds its material. -/
theorem setup_snd_of_ok (dealt : deal parties threshold draw = .ok (material, shares)) :
    (d.setup parties threshold draw).2 = ⟨some material⟩ := by
  rw [setup, dealt]

/-- A setup that failed leaves the dealer as it was. -/
theorem setup_snd_of_error {fault : Fault}
    (failed : deal parties threshold draw = .error fault) :
    (d.setup parties threshold draw).2 = d := by
  rw [setup, failed]

/-- The dealer after setups for the given parties, thresholds and draws, one after the other. -/
def setups (d : Dealer) (runs : List (ℤ × ℤ × (ℕ → ℕ))) : Dealer :=
  runs.foldl (fun d run => (d.setup run.1 run.2.1 run.2.2).2) d

/-- The material of a dealer was there before, or comes out of a setup that succeeded. -/
theorem exists_deal_of_setups {runs : List (ℤ × ℤ × (ℕ → ℕ))}
    (holds : (d.setups runs).material = some material) :
    d.material = some material ∨ ∃ run ∈ runs, ∃ shares,
      deal run.1 run.2.1 run.2.2 = .ok (material, shares) := by
  -- By induction on the setups: the first one replaces the dealer or leaves it.
  induction runs generalizing d with
  | nil => exact .inl holds
  | cons run runs ih =>
    rw [setups, List.foldl_cons] at holds
    rcases ih holds with before | ⟨run', member, dealt⟩
    · cases dealt : deal run.1 run.2.1 run.2.2 with
      | ok dealing =>
        obtain ⟨material', shares⟩ := dealing
        rw [setup_snd_of_ok dealt] at before
        obtain rfl := Option.some.inj before
        exact .inr ⟨run, List.mem_cons_self, shares, dealt⟩
      | error fault =>
        rw [setup_snd_of_error dealt] at before
        exact .inl before
    · exact .inr ⟨run', List.mem_cons_of_mem run member, dealt⟩

end Setup

/-- A setup, whatever the dealer held before. It fails on its bounds exactly when they are violated.
Within them it succeeds exactly when no party gets the share zero, and is refused with a bad value
exactly when one does. What was dealt belongs together and is what the dealer holds and publishes
from then on. A failure leaves the dealer and what it publishes as they were. -/
theorem setup_deals_or_keeps (d : Dealer) (parties threshold : ℤ) (draw : ℕ → ℕ) :
    let f := evaluate (Threshold.coefficients threshold.toNat draw)
    let result := (d.setup parties threshold draw).1
    let after := (d.setup parties threshold draw).2
    ((∃ fault, result = .error fault ∧ fault.family? = some .threshold) ↔
      ¬(0 < threshold ∧ threshold < parties)) ∧
    (0 < threshold ∧ threshold < parties →
      ((∃ dealt, result = .ok dealt) ↔ ∀ i : ℕ, i < parties → f (i + 1) ≠ 0) ∧
      (result = .error (.value .identityEncoding) ↔ ∃ i : ℕ, i < parties ∧ f (i + 1) = 0)) ∧
    (∀ material shares, result = .ok (material, shares) →
      after.material = some material ∧ (material.parties : ℤ) = parties ∧
      (material.quorum : ℤ) = threshold + 1 ∧
      shares.map KeyShare.actor = (List.range parties.toNat).map (fun (i : ℕ) => (i : ℤ)) ∧
      (∀ s ∈ shares, s.secret = ⟨s.actor, f (s.actor + 1)⟩ ∧
        Threshold.commit s.secret.value = .ok s.publicShare ∧
        material.keys.publicShare s.actor = .ok s.publicShare) ∧
      ((Json.intText threshold).length ≤ 4300 →
        ∃ data, after.publish = .ok data ∧ KeySet.ofBytes data = .ok material.keys)) ∧
    ∀ fault, result = .error fault → after.material = d.material ∧ after.publish = d.publish := by
  intro f result after
  have result_eq : result = deal parties threshold draw := setup_fst d parties threshold draw
  rw [result_eq]
  refine ⟨deal_eq_threshold_iff, deal_iff, ?_, ?_⟩
  · intro material shares dealt
    have after_eq : after = ⟨some material⟩ := setup_snd_of_ok dealt
    obtain ⟨quorum, parties_eq⟩ := quorum_of_deal dealt
    refine ⟨by rw [after_eq], parties_eq, quorum, actors_of_deal dealt, share_of_deal dealt, ?_⟩
    intro short
    -- The published threshold is the one that was asked for.
    have threshold_eq : (material.keys.threshold : ℤ) = threshold := by
      rw [Material.quorum] at quorum
      omega
    refine ⟨material.keys.toBytes, by rw [after_eq, publish], ?_⟩
    exact KeySet.ofBytes_toBytes (threshold_eq ▸ short)
  · intro fault failed
    have after_eq : after = d := setup_snd_of_error failed
    rw [after_eq]
    exact ⟨rfl, rfl⟩

/-- The line `1 - x` gives the first party the share zero, so a second setup that draws it fails.
The dealer goes on to hold and publish what the first setup dealt. -/
theorem setup_keeps_on_vanishing_line :
    ∃ material shares, (fresh.setup 2 1 fun _ => 0).1 = .ok (material, shares) ∧
      let d := (fresh.setup 2 1 fun _ => 0).2
      let again := d.setup 2 1 fun j => if j = 0 then 0 else order - 2
      again.1 = .error (.value .identityEncoding) ∧ again.2.material = some material ∧
        ∃ data, again.2.publish = .ok data ∧ KeySet.ofBytes data = .ok material.keys := by
  obtain ⟨-, inside, success, -⟩ := setup_deals_or_keeps fresh 2 1 fun _ => 0
  obtain ⟨-, inside', -, failure⟩ := setup_deals_or_keeps (fresh.setup 2 1 fun _ => 0).2 2 1
    fun j => if j = 0 then 0 else order - 2
  have nonzero : ∀ i : ℕ, i < (2 : ℤ) →
      evaluate (Threshold.coefficients (1 : ℤ).toNat fun _ => 0) (i + 1) ≠ 0 := by
    intro i i_lt
    obtain rfl | rfl : i = 0 ∨ i = 1 := by omega
    · decide +kernel
    · decide +kernel
  obtain ⟨⟨material, shares⟩, dealt⟩ := (inside (by decide)).1.mpr nonzero
  obtain ⟨held, -, -, -, -, published⟩ := success material shares dealt
  have refused := (inside' (by decide)).2.mpr ⟨0, by decide, by decide +kernel⟩
  obtain ⟨kept, same⟩ := failure _ refused
  obtain ⟨data, isOk, read⟩ := published (by decide)
  exact ⟨material, shares, dealt, refused, kept.trans held, data, same.trans isOk, read⟩

end Dealer

end Quorum
