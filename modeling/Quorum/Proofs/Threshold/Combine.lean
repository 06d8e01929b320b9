import Quorum.Proofs.Cipher.Gcm
import Quorum.Proofs.Table
import Quorum.Proofs.Threshold.Dealing
import Quorum.Proofs.Threshold.Share

/-!
# Combining answers is decrypting with the secret

The weighted answers of any actors add up to the secret times the ephemeral point, so combining
derives the same key as the holder of the secret would and opens the sealed payload with it.

## Main definitions

* `Threshold.Consistent` — every answer is the actor's share times the ephemeral point
* `Threshold.answers` — the answers of holders to a ciphertext, as a table

## Main results

* `Threshold.combine_congr` — the order of the answers does not matter
* `Threshold.interpolate_eq_ok` — weighted answers add up
* `Threshold.combine_eq_openPayload` — consistent answers open the payload like the secret
* `Threshold.consistent_answers` — the answers of holders are consistent
-/

namespace Quorum

namespace Threshold

open Curve (Element)
open Sharing (weight evaluate)

variable {shares : Table ℤ DecryptionShare} {U : P256} {coefficients : List ℤ}

/-- Every answer in a table is the value of the polynomial at its actor's point, times the
ephemeral point. -/
def Consistent (shares : Table ℤ DecryptionShare) (coefficients : List ℤ) (U : P256) : Prop :=
  ∀ i share, shares.get? i = some share → 0 ≤ i ∧ i + 1 < order ∧
    decodePoint share.point = .ok ((evaluate coefficients (i + 1) : ZMod order) • U).point

/-- Weighted answers of actors whose points are distinct add up. -/
theorem interpolate_eq_ok (consistent : Consistent shares coefficients U) {points : List ℤ}
    (nodup : points.Nodup) (range : ∀ x ∈ points, 0 ≤ x ∧ x < order) {actors : List ℤ}
    (known : ∀ i ∈ actors, i ∈ shares.keys ∧ i + 1 ∈ points) (acc : P256) :
    interpolate shares points acc.point actors =
      .ok (acc + (actors.map fun i =>
        weight points (i + 1) * evaluate coefficients (i + 1)).sum • U).point := by
  induction actors generalizing acc with
  | nil => simp [interpolate]
  | cons i actors ih =>
    obtain ⟨⟨present, member⟩, rest⟩ := List.forall_mem_cons.mp known
    obtain ⟨share, found⟩ := Table.mem_keys_iff.mp present
    obtain ⟨-, -, read⟩ := consistent i share found
    obtain ⟨w, weighed, w_eq⟩ := Sharing.lagrange_eq_ok nodup range member
    simp only [interpolate, weighed, found, Option.map_some, Option.getD_some, read,
      Outcome.bind_ok, Curve.mul_eq_smul, Curve.add_point, w_eq, ih rest]
    -- The weighted values are collected into one multiple of the ephemeral point.
    rw [List.map_cons, List.sum_cons, add_smul, mul_smul, add_assoc]

/-- The chosen actors are as many as are needed, without repetition, and have answered. -/
theorem chosen_spec {need : ℕ} (enough : need ≤ shares.size) :
    (chosen shares need).length = need ∧ (chosen shares need).Nodup ∧
      ∀ i ∈ chosen shares need, i ∈ shares.keys := by
  have sorted := List.mergeSort_perm shares.keys fun i j => i ≤ j
  refine ⟨?_, ?_, fun i member => ?_⟩
  · rw [chosen, List.length_take, sorted.length_eq, Table.length_keys]
    omega
  · exact (sorted.nodup_iff.mpr shares.nodup_keys).sublist (List.take_sublist need _)
  · exact sorted.mem_iff.mp (List.mem_of_mem_take member)

section Congruence

variable {other : Table ℤ DecryptionShare} (same : ∀ i, shares.get? i = other.get? i)

include same

/-- The actors that are chosen do not depend on the order in which they have answered. -/
theorem chosen_congr (need : ℕ) : chosen shares need = chosen other need := by
  have perm := Table.keys_perm_of_get?_eq same
  have sorted := ((List.mergeSort_perm shares.keys fun i j => i ≤ j).trans perm).trans
    (List.mergeSort_perm other.keys fun i j => i ≤ j).symm
  rw [chosen, chosen, sorted.eq_of_pairwise (fun i j _ _ => le_antisymm)
    (List.pairwise_mergeSort' (· ≤ ·) _) (List.pairwise_mergeSort' (· ≤ ·) _)]

theorem interpolate_congr (points : List ℤ) (acc : Point) (actors : List ℤ) :
    interpolate shares points acc actors = interpolate other points acc actors := by
  induction actors generalizing acc with
  | nil => rfl
  | cons i actors ih => simp only [interpolate, same, ih]

/-- Combining depends on nothing but who has answered what. -/
theorem combine_congr (keys : KeySet) (c : Ciphertext) :
    combine shares keys c = combine other keys c := by
  simp only [combine, Table.size_eq_of_get?_eq same, chosen_congr same, interpolate_congr same]

end Congruence

variable {keys : KeySet} {secret : ℤ} {rest : List ℤ} {c : Ciphertext}

/-- Enough consistent answers open the payload with the secret times the ephemeral point. -/
theorem combine_eq_openPayload (consistent : Consistent shares (secret :: rest) U)
    (length : rest.length = keys.threshold) (enough : keys.threshold < shares.size) :
    combine shares keys c = opened (openPayload ((secret : ZMod order) • U).point c) := by
  obtain ⟨count, nodup, known⟩ := chosen_spec (Nat.succ_le_of_lt enough)
  set actors := chosen shares (keys.threshold + 1) with actors_def
  -- The points of distinct actors are distinct and stay below the order.
  have distinct : (actors.map (· + 1)).Nodup := nodup.map (add_left_injective 1)
  have range : ∀ x : ℤ, x ∈ actors.map (· + 1) → 0 ≤ x ∧ x < order := by
    rw [List.forall_mem_map]
    intro i member
    obtain ⟨share, found⟩ := Table.mem_keys_iff.mp (known i member)
    have := consistent i share found
    omega
  have sum := Sharing.sum_weight_mul_evaluate distinct range secret rest
    (by rw [List.length_map, count, length]; omega)
  have answered : ∀ i ∈ actors, i ∈ shares.keys ∧ i + 1 ∈ actors.map (· + 1) :=
    fun i member => ⟨known i member, List.mem_map_of_mem member⟩
  have interpolated := interpolate_eq_ok consistent distinct range answered 0
  rw [List.map_map] at sum
  rw [Element.point_zero, zero_add] at interpolated
  simp only [combine, if_neg (not_lt.mpr (Nat.succ_le_of_lt enough)), ← actors_def, interpolated,
    Outcome.lift_ok, Outcome.bind_ok]
  rw [← sum]
  rfl

/-- Opening with the secret opens the payload with the secret times the ephemeral point. -/
theorem openWithSecret_eq_openPayload (secret : ℤ) (read : decodePoint c.ephemeral = .ok U.point) :
    openWithSecret secret c = opened (openPayload ((secret : ZMod order) • U).point c) := by
  simp only [openWithSecret, read, Curve.mul_eq_smul, Outcome.lift_ok, Outcome.bind_ok]

/-- The key that a shared point which is not at infinity gives. -/
theorem payloadKey_eq_ok {S : P256} (nonzero : S ≠ 0) (ephemeral : Bytes) :
    payloadKey S.point ephemeral =
      .ok (hkdf ephemeral S.encoded (Bytes.ascii "conclave/threshold/dem")) := by
  rw [payloadKey, if_neg (Element.eq_zero_iff.not.mp nonzero), Curve.compress_point nonzero,
    Outcome.bind_ok]

/-- What a key makes of a payload is the payload or a refusal to combine. -/
theorem opened_openPayload {S : Point} {key : Bytes} (isOk : payloadKey S c.ephemeral = .ok key) :
    opened (openPayload S c) =
      match Gcm.decrypt? key c.nonce c.ephemeral c.sealed with
      | some m => .ok m
      | none => .error .notCombined := by
  rw [openPayload, isOk, Outcome.bind_ok]
  cases Gcm.decrypt? key c.nonce c.ephemeral c.sealed <;> rfl

/-- Adding up any answers gives a point of the curve or a refused value. -/
theorem interpolate_isPoint (points : List ℤ) (acc : P256) (actors : List ℤ) {P : Point}
    (isOk : interpolate shares points acc.point actors = .ok P) : ∃ Q : P256, P = Q.point := by
  induction actors generalizing acc with
  | nil => exact ⟨acc, (Except.ok.inj isOk).symm⟩
  | cons i actors ih =>
    simp only [interpolate, Outcome.bind_eq_ok] at isOk
    obtain ⟨w, -, D, read, T, multiplied, A, added, isOk⟩ := isOk
    obtain ⟨D, -, rfl⟩ := exists_of_decodePoint read
    rw [Curve.mul_eq_smul] at multiplied
    obtain rfl := Except.ok.inj multiplied
    rw [Curve.add_point] at added
    obtain rfl := Except.ok.inj added
    exact ih _ isOk

/-- With enough answers combining gives a payload or refuses, whatever the answers are. -/
theorem combine_isOk_or_notCombined (enough : keys.threshold < shares.size) :
    (∃ m, combine shares keys c = .ok m) ∨ combine shares keys c = .error .notCombined := by
  simp only [combine, if_neg (not_lt.mpr (Nat.succ_le_of_lt enough))]
  generalize chosen shares (keys.threshold + 1) = actors
  cases interpolated : interpolate shares (actors.map (· + 1)) .infinity actors with
  | error e =>
    right
    rfl
  | ok P =>
    obtain ⟨S, rfl⟩ := interpolate_isPoint (actors.map (· + 1)) 0 actors interpolated
    rw [Outcome.lift_ok, Outcome.bind_ok]
    -- A sum at infinity gives no key, which is a refusal too.
    by_cases zero : S = 0
    · subst zero
      right
      rfl
    · rw [opened_openPayload (payloadKey_eq_ok zero c.ephemeral)]
      cases Gcm.decrypt? _ c.nonce c.ephemeral c.sealed with
      | some m => exact .inl ⟨m, rfl⟩
      | none => exact .inr rfl

/-- The answers of holders of secret shares to a ciphertext, each under its holder's index. -/
def answers (quorum : List SecretShare) (c : Ciphertext) : Outcome (Table ℤ DecryptionShare) := do
  let entries ← quorum.mapM fun secret => do
    let share ← decryptShare secret c
    .ok (secret.index, share)
  .ok (Table.ofList entries)

/-- Holders whose shares are not zero answer a ciphertext that passes the check consistently. -/
theorem consistent_answers {secrets quorum : List SecretShare}
    (dealt : Dealt keys secrets coefficients) (nonzero : ∀ s ∈ secrets, s.value ≠ 0)
    (distinct : quorum.Nodup) (known : quorum ⊆ secrets) (holds : c.verify = .ok true)
    (U_ne : U ≠ 0) (read : decodePoint c.ephemeral = .ok U.point) :
    ∃ shares, answers quorum c = .ok shares ∧ shares.size = quorum.length ∧
      Consistent shares coefficients U := by
  -- Each holder answers by its value times the ephemeral point.
  have each : ∀ s ∈ quorum, ∃ share, decryptShare s c = .ok share ∧
      share.point = ((s.value : ZMod order) • U).encoded := by
    intro s member
    obtain ⟨positive, below⟩ := dealt.value_mem_range (known member) (nonzero s (known member))
    obtain ⟨share, answered, -, point, -⟩ := decryptShare_eq_ok (dealt.range s (known member)).1
      positive below holds U_ne read
    exact ⟨share, answered, point⟩
  choose! share answered point using each
  have entries : quorum.mapM (fun secret => do
      let share ← decryptShare secret c
      .ok (secret.index, share)) = .ok (quorum.map fun s => (s.index, share s)) :=
    Outcome.mapM_eq_ok fun s member => by rw [answered s member, Outcome.bind_ok]
  -- A dealt share is determined by its index.
  have nodup : ((quorum.map fun s => (s.index, share s)).map Prod.fst).Nodup := by
    rw [List.map_map]
    refine distinct.map_on fun s s_mem s' s'_mem same => ?_
    have value := dealt.value s (known s_mem)
    rw [show s.index = s'.index from same, ← dealt.value s' (known s'_mem)] at value
    cases s
    cases s'
    simp_all
  refine ⟨Table.ofList (quorum.map fun s => (s.index, share s)), ?_, ?_, fun i answer found => ?_⟩
  · rw [answers, entries, Outcome.bind_ok]
  · rw [Table.size, Table.entries_ofList nodup, List.length_map]
  · rw [Table.get?_eq_some_iff, Table.entries_ofList nodup, List.mem_map] at found
    obtain ⟨s, member, pair⟩ := found
    obtain ⟨rfl, rfl⟩ := Prod.mk.inj pair
    obtain ⟨index_nonneg, index_lt⟩ := dealt.range s (known member)
    have range := dealt.value_mem_range (known member) (nonzero s (known member))
    have value_ne := smul_ne_zero (Scalar.cast_ne_zero range.1 range.2) U_ne
    refine ⟨index_nonneg, index_lt, ?_⟩
    rw [point s member, decodePoint_encoded value_ne, dealt.value s (known member)]

/-- The value of the polynomial at any point gives a right share, whether or not it was dealt. -/
theorem Dealt.exists_share {secrets : List SecretShare} (dealt : Dealt keys secrets coefficients)
    {i : ℤ} (nonneg : 0 ≤ i) (nonzero : Sharing.evaluate coefficients (i + 1) ≠ 0)
    (holds : c.verify = .ok true) :
    ∃ share publicShare, share.actor = i ∧ keys.publicShare i = .ok publicShare ∧
      verifyShare share publicShare c = .ok true := by
  obtain ⟨U, -, -, -, U_ne, read, -⟩ := Ciphertext.verify_eq_true_iff.mp holds
  have range := Sharing.evaluate_mem_range coefficients (i + 1)
  have positive := lt_of_le_of_ne range.1 nonzero.symm
  obtain ⟨share, -, actor, -, right⟩ :=
    @decryptShare_eq_ok U ⟨i, _⟩ c nonneg positive range.2 holds U_ne read
  have value_ne := baseMultiple_ne_zero (Scalar.cast_ne_zero positive range.2)
  exact ⟨share, _, actor, dealt.publicShare_eq_ok nonneg nonzero,
    right _ (decodePoint_encoded value_ne)⟩

end Threshold

end Quorum
