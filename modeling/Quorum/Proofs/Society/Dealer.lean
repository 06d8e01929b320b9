import Quorum.Proofs.Threshold.Dealing
import Quorum.Society.Dealer

/-!
# What setup guarantees

Setup computes the public share of every party before it hands anything out, so it fails when a
share is zero. Material that was handed out has a public share for every party.

## Main definitions

* `Material.Complete` — every party has a public share

## Main results

* `Threshold.publicShare_of_generate` — public shares of a dealt key set are commitments to shares
* `Dealer.deal_eq_ok_iff` — when setup succeeds
* `Dealer.complete_of_deal` — every party of dealt material has a public share
* `Dealer.quorum_of_deal` — the quorum of dealt material
* `Dealer.actors_of_deal` — the holders of dealt key shares
* `Dealer.deal_isOk` — setup succeeds when no share is zero
-/

namespace Quorum

/-- Every party has a public share. -/
def Material.Complete (m : Material) : Prop :=
  ∀ i : ℤ, 0 ≤ i → i < m.parties → ∃ publicShare, m.keys.publicShare i = .ok publicShare

/-- The rules that material satisfies. -/
theorem Material.ofParts_eq_ok_iff {keys : KeySet} {threshold parties : ℤ} {m : Material} :
    (Material.ofParts keys threshold parties).outcome = .ok m ↔
      (0 < threshold ∧ threshold < parties) ∧ (keys.threshold : ℤ) = threshold ∧
        m.keys = keys ∧ (m.parties : ℤ) = parties := by
  obtain ⟨keys', parties', threshold_lt⟩ := m
  constructor
  · intro made
    unfold ofParts at made
    split at made
    · cases made
    · next bounds =>
      split at made
      · next rules =>
        obtain ⟨rfl, rfl⟩ := Material.mk.inj (Except.ok.inj made)
        exact ⟨not_not.mp bounds, rules.1, rfl, by simp only; omega⟩
      · cases made
  · rintro ⟨bounds, same, rfl, rfl⟩
    simp only at bounds
    have rules : (keys'.threshold : ℤ) = threshold ∧ keys'.threshold < (parties' : ℤ).toNat :=
      ⟨same, by omega⟩
    rw [ofParts, if_neg (not_not.mpr bounds), dif_pos rules]
    rfl

/-- The public share of an index is the commitment to its share, whether or not there is one. -/
theorem Threshold.publicShare_of_generate {parties threshold : ℤ} {draw : ℕ → ℕ} {keys : KeySet}
    {secrets : List SecretShare} (generated : generate parties threshold draw = .ok (keys, secrets))
    {i : ℤ} (nonneg : 0 ≤ i) : keys.publicShare i =
      commit (Sharing.evaluate (coefficients threshold.toNat draw) (i + 1)) := by
  obtain ⟨positive, below⟩ := bounds_of_generate generated
  obtain ⟨keys', -, commitments, generated'⟩ := generate_eq_ok draw positive below
  obtain ⟨rfl, -⟩ := Prod.mk.inj (Except.ok.inj (generated'.symm.trans generated))
  exact KeySet.publicShare_eq_commit coefficients_ne_zero commitments nonneg

namespace Dealer

variable {parties threshold : ℤ} {draw : ℕ → ℕ} {material : Material} {shares : List KeyShare}

/-- Setup succeeds when a key is dealt and every party has a public share. -/
theorem deal_eq_ok_iff : deal parties threshold draw = .ok (material, shares) ↔
    ∃ secrets, Threshold.generate parties threshold draw = .ok (material.keys, secrets) ∧
      secrets.mapM (keyShare material.keys) = .ok shares ∧ (material.parties : ℤ) = parties := by
  constructor
  · intro dealt
    unfold deal at dealt
    split at dealt
    · cases dealt
    · split at dealt
      · cases dealt
      · obtain ⟨⟨keys, secrets⟩, generated, dealt⟩ := Outcome.bind_eq_ok.mp dealt
        obtain ⟨shares', shared, dealt⟩ := Outcome.bind_eq_ok.mp dealt
        obtain ⟨material', made, dealt⟩ := Outcome.bind_eq_ok.mp dealt
        obtain ⟨rfl, rfl⟩ := Prod.mk.inj (Except.ok.inj dealt)
        -- The threshold of the key set and that of the material agree by the rules of material.
        obtain ⟨-, -, rfl, parties_eq⟩ := Material.ofParts_eq_ok_iff.mp made
        exact ⟨secrets, generated, shared, parties_eq⟩
  · rintro ⟨secrets, generated, shared, parties_eq⟩
    obtain ⟨positive, below⟩ := Threshold.bounds_of_generate generated
    obtain ⟨keys, threshold_eq, -, generated'⟩ := Threshold.generate_eq_ok draw positive below
    rw [generated', Except.ok.injEq, Prod.mk.injEq] at generated
    obtain ⟨rfl, rfl⟩ := generated
    have made := Material.ofParts_eq_ok_iff.mpr ⟨⟨positive, below⟩, threshold_eq, rfl, parties_eq⟩
    rw [deal, if_neg (by omega), if_neg (by omega), generated', Outcome.bind_ok]
    simp only [shared, made, Outcome.bind_ok]

/-- Setup succeeds within its bounds only. -/
theorem bounds_of_deal (dealt : deal parties threshold draw = .ok (material, shares)) :
    0 < threshold ∧ threshold < parties := by
  obtain ⟨secrets, generated, -⟩ := deal_eq_ok_iff.mp dealt
  exact Threshold.bounds_of_generate generated

/-- Every party of material that was handed out has a public share. -/
theorem complete_of_deal (dealt : deal parties threshold draw = .ok (material, shares)) :
    material.Complete := by
  intro i nonneg below
  obtain ⟨secrets, generated, shared, parties_eq⟩ := deal_eq_ok_iff.mp dealt
  -- The public share was computed when the key share of this index was made.
  have member : ∃ s ∈ secrets, s.index = i := by
    rw [Threshold.secrets_of_generate generated]
    refine ⟨_, List.mem_map_of_mem (List.mem_range.mpr (by omega : i.toNat < parties.toNat)), ?_⟩
    exact Int.toNat_of_nonneg nonneg
  obtain ⟨s, member, rfl⟩ := member
  obtain ⟨share, computed⟩ := Outcome.exists_of_mapM_eq_ok shared s member
  obtain ⟨publicShare, isOk, -⟩ := Outcome.bind_eq_ok.mp computed
  exact ⟨publicShare, isOk⟩

/-- The number of shares that decrypt is one more than the threshold, and the parties are those that
were asked for. -/
theorem quorum_of_deal (dealt : deal parties threshold draw = .ok (material, shares)) :
    (material.quorum : ℤ) = threshold + 1 ∧ (material.parties : ℤ) = parties := by
  obtain ⟨secrets, generated, -, parties_eq⟩ := deal_eq_ok_iff.mp dealt
  obtain ⟨positive, below⟩ := Threshold.bounds_of_generate generated
  obtain ⟨keys, threshold_eq, -, generated'⟩ := Threshold.generate_eq_ok draw positive below
  rw [generated', Except.ok.injEq, Prod.mk.injEq] at generated
  refine ⟨?_, parties_eq⟩
  rw [Material.quorum, ← generated.1]
  push_cast
  rw [threshold_eq]

/-- Every party gets one key share, the first of them that of index zero. -/
theorem actors_of_deal (dealt : deal parties threshold draw = .ok (material, shares)) :
    shares.map KeyShare.actor = (List.range parties.toNat).map fun (i : ℕ) => (i : ℤ) := by
  obtain ⟨secrets, generated, shared, -⟩ := deal_eq_ok_iff.mp dealt
  have indices : shares.map KeyShare.actor = secrets.map SecretShare.index := by
    refine Outcome.map_of_mapM_eq_ok shared fun s share computed => ?_
    obtain ⟨publicShare, -, made⟩ := Outcome.bind_eq_ok.mp computed
    rw [← Except.ok.inj made]
  rw [indices, Threshold.secrets_of_generate generated, List.map_map]
  rfl

/-- The key share of an index is made when there is a commitment to its share. -/
theorem keyShare_of_generate {keys : KeySet} {secrets : List SecretShare}
    (generated : Threshold.generate parties threshold draw = .ok (keys, secrets)) {s : SecretShare}
    (nonneg : 0 ≤ s.index) : keyShare keys s =
      Threshold.commit
          (Sharing.evaluate (Threshold.coefficients threshold.toNat draw) (s.index + 1)) >>=
        fun publicShare => .ok ⟨s.index, publicShare, s⟩ := by
  rw [keyShare, Threshold.publicShare_of_generate generated nonneg]

/-- Setup succeeds when no share is zero. -/
theorem deal_isOk (positive : 0 < threshold) (below : threshold < parties)
    (nonzero : ∀ i : ℕ, i < parties →
      Sharing.evaluate (Threshold.coefficients threshold.toNat draw) (i + 1) ≠ 0) :
    ∃ material shares, deal parties threshold draw = .ok (material, shares) := by
  obtain ⟨keys, threshold_eq, -, generated⟩ := Threshold.generate_eq_ok draw positive below
  have threshold_lt : keys.threshold < parties.toNat := by omega
  refine ⟨⟨keys, parties.toNat, threshold_lt⟩, _, deal_eq_ok_iff.mpr ⟨_, generated,
    Outcome.mapM_eq_ok (g := fun s => ⟨s.index, (baseMultiple s.value).encoded, s⟩) ?_,
    by simp only; omega⟩⟩
  rw [List.forall_mem_map]
  intro i member
  have i_lt := List.mem_range.mp member
  have share_ne := Sharing.cast_evaluate_ne_zero (nonzero i (by omega))
  rw [keyShare_of_generate generated (Int.natCast_nonneg i), Threshold.commit_eq_ok share_ne,
    Outcome.bind_ok]

end Dealer

end Quorum
