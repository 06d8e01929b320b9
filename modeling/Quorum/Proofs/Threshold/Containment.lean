import Quorum.Fault.Family
import Quorum.Proofs.Threshold.Combine

/-!
# Hostile input is contained

Ciphertexts, answers and public shares come from anybody. Whatever their bytes are, an operation on
them ends in its own answer or in one of its own failures, so that whoever calls it has to handle no
other. Bytes that can be read as a point are a point of the curve, and between points of the curve
no operation fails; bytes that cannot be read are refused before. The one fault left is a field
that does not fit behind its length, and short fields fit.

An actor is any integer here, also in the table of answers. Two actors whose points are the same
modulo the order have no weights, and their answers are refused like answers that do not open the
payload.

## Main results

* `KeySet.publicShare_isOk_or_identity` — every actor has a public share, or its point has none
* `Ciphertext.verify_isOk` — a ciphertext with short fields passes the check or does not
* `Threshold.decryptShare_isOk_or_refused` — how a holder of a share fails to answer
* `Threshold.combine_insufficient_iff` — when there are too few answers
* `Threshold.hostile_input_contained` — what each operation does with any input
-/

namespace Quorum

namespace KeySet

/-- Commitments that can be read add up to a point of the curve, whoever made them. -/
theorem exists_combineAt {commitments : List Bytes}
    (points : ∀ data ∈ commitments, isPoint data = true) (x power : ℤ) (acc : P256) :
    ∃ Q : P256, combineAt x power acc.point commitments = .ok Q.point := by
  -- The power and the sum so far change from one commitment to the next.
  induction commitments generalizing power acc with
  | nil => exact ⟨acc, rfl⟩
  | cons data commitments ih =>
    obtain ⟨first, rest⟩ := List.forall_mem_cons.mp points
    obtain ⟨P, read⟩ := Outcome.exists_of_isOk first
    obtain ⟨Q, -, rfl⟩ := exists_of_decodePoint read
    rw [combineAt, read]
    simp only [Outcome.bind_ok, Curve.mul_eq_smul, Curve.add_point]
    exact ih rest _ _

/-- Every index that is not negative has a public share, unless its commitments add up to the point
at infinity, which cannot be encoded. -/
theorem publicShare_isOk_or_identity (keys : KeySet) {index : ℤ} (nonneg : 0 ≤ index) :
    (∃ publicShare, keys.publicShare index = .ok publicShare) ∨
      keys.publicShare index = .error (.value .identityEncoding) := by
  obtain ⟨Q, combined⟩ := exists_combineAt keys.isPoint_commitments (index + 1) 1 0
  rw [Curve.Element.point_zero] at combined
  rw [publicShare, if_neg (not_lt.mpr nonneg), combined, Outcome.lift_ok, Outcome.bind_ok]
  by_cases zero : Q = 0
  · right
    rw [zero]
    rfl
  · left
    exact ⟨_, Curve.compress_point zero⟩

end KeySet

namespace Ciphertext

variable {c : Ciphertext}

/-- A ciphertext whose fields fit passes the check or does not. -/
theorem verify_isOk
    (fit : ∀ field ∈ [c.ephemeral, c.nonce, c.sealed, c.commitment], field.length < 2 ^ 32) :
    ∃ holds, c.verify = .ok holds := by
  cases checked : c.verify with
  | ok holds => exact ⟨holds, rfl⟩
  | error f =>
    obtain ⟨-, field, member, long⟩ := eq_tooBig_of_verify checked
    exact absurd (fit field member) (not_lt.mpr long)

end Ciphertext

namespace Threshold

variable {secret : SecretShare} {shares : Table ℤ DecryptionShare} {keys : KeySet} {c : Ciphertext}

/-- An answer to a ciphertext that can be checked is right or is not, whatever it and the public
share are. -/
theorem verifyShare_isOk_of_verify_isOk (checked : ∃ holds, c.verify = .ok holds)
    (share : DecryptionShare) (publicShare : Bytes) :
    ∃ right, verifyShare share publicShare c = .ok right := by
  obtain ⟨holds, checked⟩ := checked
  cases judged : verifyShare share publicShare c with
  | ok right => exact ⟨right, rfl⟩
  | error f =>
    -- Judging an answer fails only where the check of the ciphertext does.
    obtain ⟨-, failed⟩ := eq_tooBig_of_verifyShare judged
    rw [checked] at failed
    cases failed

/-- The holder of a share answers a ciphertext that can be checked, unless the share is out of range
or the check does not pass. -/
theorem decryptShare_isOk_or_refused (index_nonneg : 0 ≤ secret.index)
    (checked : ∃ holds, c.verify = .ok holds) :
    (∃ share, decryptShare secret c = .ok share) ∨
      decryptShare secret c = .error (.secretShare secret.index) ∨
      decryptShare secret c = .error .ciphertextProof := by
  -- The share is looked at before the ciphertext.
  by_cases inRange : 0 < secret.value ∧ secret.value < order
  · obtain ⟨holds, checked⟩ := checked
    cases holds with
    | true =>
      obtain ⟨U, -, -, -, U_ne, read, -⟩ := Ciphertext.verify_eq_true_iff.mp checked
      obtain ⟨share, answered, -⟩ :=
        decryptShare_eq_ok index_nonneg inRange.1 inRange.2 checked U_ne read
      exact .inl ⟨share, answered⟩
    | false =>
      right
      right
      rw [decryptShare, if_neg (not_not.mpr inRange), checked]
      rfl
  · right
    left
    rw [decryptShare, if_pos inRange]

/-- Combining says that there are too few answers exactly when there are. -/
theorem combine_insufficient_iff :
    combine shares keys c = .error (.insufficient shares.size (keys.threshold + 1)) ↔
      shares.size < keys.threshold + 1 := by
  constructor
  · intro refused
    by_contra enough
    -- With enough answers the failures are of another kind.
    rcases combine_isOk_or_notCombined (c := c) (not_lt.mp enough) with ⟨m, combined⟩ | combined
    · rw [combined] at refused
      cases refused
    · rw [combined] at refused
      cases refused
  · intro few
    rw [combine, if_pos few]
    rfl

/-- Whatever bytes a ciphertext, an answer and a public share are made of, as long as the fields of
the ciphertext are short: the ciphertext and the answer are checked, a holder answers or fails to
compute its share, and combining returns a payload or refuses, with too few answers if and only if
there are no more than the threshold. -/
theorem hostile_input_contained
    (short : ∀ field ∈ [c.ephemeral, c.nonce, c.sealed, c.commitment, c.response],
      field.length < 2 ^ 31) :
    (∃ holds, c.verify = .ok holds) ∧
    (∀ (share : DecryptionShare) (publicShare : Bytes),
      ∃ right, verifyShare share publicShare c = .ok right) ∧
    (∀ secret : SecretShare, 0 ≤ secret.index →
      (∃ share, decryptShare secret c = .ok share) ∨
        ∃ f, decryptShare secret c = .error f ∧ f.family? = some .computation) ∧
    ∀ (shares : Table ℤ DecryptionShare) (keys : KeySet),
      (combine shares keys c = .error (.insufficient shares.size (keys.threshold + 1)) ↔
        shares.size < keys.threshold + 1) ∧
      (keys.threshold + 1 ≤ shares.size →
        (∃ m, combine shares keys c = .ok m) ∨ combine shares keys c = .error .notCombined) := by
  have checked : ∃ holds, c.verify = .ok holds := by
    apply Ciphertext.verify_isOk
    intro field member
    have := short field (by simp only [List.mem_cons] at member ⊢; tauto)
    omega
  refine ⟨checked, verifyShare_isOk_of_verify_isOk checked, ?_, ?_⟩
  · intro secret index_nonneg
    rcases decryptShare_isOk_or_refused index_nonneg checked with answered | refused | refused
    · exact .inl answered
    · exact .inr ⟨_, refused, rfl⟩
    · exact .inr ⟨_, refused, rfl⟩
  · intro shares keys
    exact ⟨combine_insufficient_iff, combine_isOk_or_notCombined⟩

/-- Bytes without meaning, as a ciphertext and as the answers of two actors whose points are the
same modulo the order, of whom one comes before the first. -/
theorem meaningless_bytes_contained :
    ∃ (c : Ciphertext) (share : DecryptionShare) (keys : KeySet) (secrets : List SecretShare),
      c = ⟨[4, 1], [], [255], [2], [7]⟩ ∧ share = ⟨0, [3], [], [1, 2]⟩ ∧
      generate 2 1 (fun _ => 0) = .ok (keys, secrets) ∧
      (∃ holds, c.verify = .ok holds) ∧ (∃ right, verifyShare share [9] c = .ok right) ∧
      ((∃ share, decryptShare ⟨0, 1⟩ c = .ok share) ∨
        ∃ f, decryptShare ⟨0, 1⟩ c = .error f ∧ f.family? = some .computation) ∧
      combine (Table.ofList [(-1, share)]) keys c = .error (.insufficient 1 2) ∧
      ((∃ m, combine (Table.ofList [(-1, share), (order - 1, share)]) keys c = .ok m) ∨
        combine (Table.ofList [(-1, share), (order - 1, share)]) keys c =
          .error .notCombined) := by
  obtain ⟨keys, threshold, -, isOk⟩ :=
    generate_eq_ok (fun _ => 0) (by decide : (0 : ℤ) < 1) one_lt_two
  have threshold_eq : keys.threshold = 1 := by exact_mod_cast threshold
  obtain ⟨checked, judged, answered, combined⟩ :=
    hostile_input_contained (c := ⟨[4, 1], [], [255], [2], [7]⟩) (by decide)
  refine ⟨_, ⟨0, [3], [], [1, 2]⟩, keys, _, rfl, rfl, isOk, checked, judged _ _, answered _ le_rfl,
    ?_, ?_⟩
  · have refused := (combined (Table.ofList [(-1, ⟨0, [3], [], [1, 2]⟩)]) keys).1
    rw [threshold_eq] at refused
    exact refused.mpr (by decide)
  · apply (combined _ keys).2
    rw [threshold_eq]
    decide

end Threshold

end Quorum
