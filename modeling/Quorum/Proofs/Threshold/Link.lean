import Quorum.Fault.Family
import Quorum.Proofs.Threshold.Share

/-!
# The proof that links a share to its holder

A decryption share `S` comes with a proof that one secret `x` gives both `S = x · U` and the public
share `Y = x · G`. Whoever has the secret makes a share that passes the check, for every ciphertext
that passes its own. Whoever answers with another point has to commit before the challenge is known:
two commitments `A₁`, `A₂` fit one challenge at most, so the answer passes only if the hash gives
just that one.

## Main definitions

* `Threshold.linkChallenge` — the hash over the points of a proof and the ciphertext

## Main results

* `Threshold.decryptShare_passes` — when there is an answer, and that it passes the check
* `Threshold.verifyShare_eq_true_iff` — the equation that an answer passes
* `Threshold.challenge_unique` — a wrong point fits at most one challenge
* `Threshold.wrong_point_needs_hash` — an answer with a wrong point needs one value of the hash
-/

namespace Quorum

namespace Threshold

section Completeness

/-! ### Holders answer -/

/-- The holder of a secret in range answers every ciphertext that passes the check, and the answer
passes the check against both forms of the public share. A secret out of range, or a ciphertext that
does not pass the check, is refused as a share that cannot be computed. -/
theorem decryptShare_passes (secret : SecretShare) (c : Ciphertext) :
    (0 ≤ secret.index → 0 < secret.value → secret.value < order → c.verify = .ok true →
      ∃ share Y compressed uncompressed, decryptShare secret c = .ok share ∧
        share.actor = secret.index ∧ Curve.p256.mulBase secret.value = .ok Y ∧
        Curve.compress Y = .ok compressed ∧ Curve.p256.uncompress Y = .ok uncompressed ∧
        verifyShare share compressed c = .ok true ∧
        verifyShare share uncompressed c = .ok true ∧
        ∀ publicShare, decodePoint publicShare = .ok Y →
          verifyShare share publicShare c = .ok true) ∧
    (¬(0 < secret.value ∧ secret.value < order) ∨ c.verify = .ok false →
      ∃ f, decryptShare secret c = .error f ∧ f.family? = some .computation) := by
  constructor
  · intro index_nonneg positive below holds
    obtain ⟨U, R, z, e, U_ne, read, -, -, -, -⟩ := Ciphertext.verify_eq_true_iff.mp holds
    obtain ⟨share, computed, actor, -, passes⟩ :=
      decryptShare_eq_ok index_nonneg positive below holds U_ne read
    have Y_ne := baseMultiple_ne_zero (Scalar.cast_ne_zero positive below)
    refine ⟨share, (baseMultiple secret.value).point, _, _, computed, actor,
      mulBase_eq_baseMultiple secret.value, Curve.compress_point Y_ne,
      Curve.uncompress_point Y_ne, ?_, ?_, passes⟩
    · exact passes _ (Curve.decode_encoded Y_ne)
    · exact passes _ (Curve.decode_uncompressed Y_ne)
  · intro refused
    by_cases inRange : 0 < secret.value ∧ secret.value < order
    · have malformed := refused.resolve_left (not_not.mpr inRange)
      refine ⟨.ciphertextProof, ?_, rfl⟩
      rw [decryptShare, if_neg (not_not.mpr inRange), malformed]
      rfl
    · exact ⟨.secretShare secret.index, by rw [decryptShare, if_pos inRange], rfl⟩

/-- Actor zero with the secret one answers a ciphertext without a payload. -/
theorem decryptShare_passes_for_secret_one :
    ∃ c : Ciphertext, c.verify = .ok true ∧ ∃ share Y compressed uncompressed,
      decryptShare ⟨0, 1⟩ c = .ok share ∧ Curve.p256.mulBase 1 = .ok Y ∧
      Curve.compress Y = .ok compressed ∧ Curve.p256.uncompress Y = .ok uncompressed ∧
      verifyShare share compressed c = .ok true ∧ verifyShare share uncompressed c = .ok true := by
  obtain ⟨c, holds, -⟩ := Ciphertext.exists_verify_of_empty_payload
  obtain ⟨share, Y, compressed, uncompressed, computed, -, multiplied, short, long, passes, passes',
    -⟩ := (decryptShare_passes ⟨0, 1⟩ c).1 le_rfl one_pos (by decide) holds
  exact ⟨c, holds, share, Y, compressed, uncompressed, computed, multiplied, short, long, passes,
    passes'⟩

end Completeness

section Soundness

/-! ### Wrong points need luck -/

/-- The hash over the public share, the answered point, the commitments and the ciphertext. -/
def linkChallenge (y s a₁ a₂ : Point) (c : Ciphertext) : Outcome Nat := do
  let digest ← c.digest
  (linkTranscript (← Curve.compress y) (← Curve.compress s) (← Curve.compress a₁)
    (← Curve.compress a₂) digest).challenge

/-- An answer passes the check if all of it can be read, the commitments that it must have had are
not at infinity, and their hash is the challenge. -/
theorem verifyShare_eq_true_iff {share : DecryptionShare} {publicShare : Bytes} {c : Ciphertext} :
    verifyShare share publicShare c = .ok true ↔ c.verify = .ok true ∧
      ∃ (y s u a₁ a₂ : Point) (e z : ℕ), decodePoint publicShare = .ok y ∧
        decodePoint share.point = .ok s ∧ decodePoint c.ephemeral = .ok u ∧
        Scalar.ofBytes share.challenge = .ok e ∧ Scalar.ofBytes share.response = .ok z ∧
        recompute y s u e z = .ok (a₁, a₂) ∧ a₁ ≠ .infinity ∧ a₂ ≠ .infinity ∧
        linkChallenge y s a₁ a₂ c = .ok e := by
  have compared (y s a₁ a₂ : Point) (e : ℕ) : (do
      let digest ← c.digest
      let expected ← (linkTranscript (← Curve.compress y) (← Curve.compress s)
        (← Curve.compress a₁) (← Curve.compress a₂) digest).challenge
      .ok (expected == e) : Outcome Bool) = .ok true ↔ linkChallenge y s a₁ a₂ c = .ok e := by
    simp [linkChallenge, Outcome.bind_eq_ok]
  constructor
  · intro passes
    obtain ⟨wellFormed, holds, passes⟩ := Outcome.bind_eq_ok.mp passes
    cases wellFormed with
    | false => cases passes
    | true =>
      simp only [Bool.not_true, Bool.false_eq_true, if_false] at passes
      split at passes
      · cases passes
      · next y s u e z read =>
        simp only [reading, Outcome.bind_eq_ok, Except.ok.injEq, Prod.mk.injEq] at read
        obtain ⟨y, y_read, s, s_read, u, u_read, e, e_read, z, z_read, rfl, rfl, rfl, rfl, rfl⟩ :=
          read
        obtain ⟨⟨a₁, a₂⟩, recomputed, passes⟩ := Outcome.bind_eq_ok.mp passes
        rw [Outcome.lift_eq_ok] at recomputed
        simp only at passes
        split at passes
        · cases passes
        · next finite =>
          exact ⟨holds, y, s, u, a₁, a₂, e, z, y_read, s_read, u_read, e_read, z_read, recomputed,
            (not_or.mp finite).1, (not_or.mp finite).2, (compared y s a₁ a₂ e).mp passes⟩
  · rintro ⟨holds, y, s, u, a₁, a₂, e, z, y_read, s_read, u_read, e_read, z_read, recomputed,
      first, second, hashed⟩
    have read : reading share publicShare c = .ok (y, s, u, e, z) := by
      simp only [reading, y_read, s_read, u_read, e_read, z_read, Outcome.bind_ok]
    simp only [verifyShare, holds, read, recomputed, Outcome.bind_ok, Outcome.lift_ok,
      Bool.not_true, Bool.false_eq_true, if_false, first, second, or_self]
    exact (compared y s a₁ a₂ e).mpr hashed

variable {x : ℤ} {U S : P256} {e e' z z' : ℕ}

/-- What the check recomputes, between points of P-256. -/
theorem recompute_eq (x : ℤ) (S U : P256) (e z : ℕ) :
    recompute (baseMultiple x).point S.point U.point e z =
      .ok ((baseMultiple (z - e * x)).point,
        ((z : ZMod order) • U - (e : ZMod order) • S).point) := by
  have minus : (((order : ℤ) - e : ℤ) : ZMod order) = -e := by simp
  simp only [recompute, Curve.mulBase_eq_smul, Curve.mul_eq_smul, Curve.add_point, baseMultiple,
    Outcome.bind_ok, minus, Int.cast_natCast]
  congr 3
  · push_cast
    module
  · module

/-- A point that is not the secret times the ephemeral point fits one challenge at most. -/
theorem challenge_unique (wrong : S ≠ (x : ZMod order) • U) (e_lt : e < order) (e'_lt : e' < order)
    (same : recompute (baseMultiple x).point S.point U.point e z =
      recompute (baseMultiple x).point S.point U.point e' z') : e = e' := by
  rw [recompute_eq, recompute_eq, Except.ok.injEq, Prod.mk.injEq, ← Curve.Element.ext_iff,
    ← Curve.Element.ext_iff] at same
  obtain ⟨first, second⟩ := same
  -- The first commitment fixes `z - e x`.
  have responses : (z : ZMod order) - e * x = z' - e' * x := by
    have := cast_eq_of_baseMultiple_eq first
    push_cast at this
    exact this
  have scaled : ((e : ZMod order) - e') • ((x : ZMod order) • U - S) = 0 := by
    have shifted : (z : ZMod order) = z' + (e - e') * x := by linear_combination responses
    rw [shifted] at second
    rw [← sub_eq_zero] at second
    rw [← second]
    module
  have apart : (x : ZMod order) • U - S ≠ 0 := sub_ne_zero.mpr wrong.symm
  have residues : (e : ZMod order) = e' :=
    sub_eq_zero.mp ((smul_eq_zero.mp scaled).resolve_right apart)
  exact Scalar.eq_of_natCast_eq e_lt e'_lt residues

/-- An answer whose point is not the secret times the ephemeral point: each pair of commitments fits
one challenge at most, whatever the responses are. So the answer passes the check only if the hash
over the commitments that it must have had gives the one challenge that fits them. -/
theorem wrong_point_needs_hash {c : Ciphertext} {publicShare point : Bytes} {y s u right : Point}
    (ephemeral : decodePoint c.ephemeral = .ok u) (multiplied : Curve.p256.mulBase x = .ok y)
    (known : decodePoint publicShare = .ok y) (answered : decodePoint point = .ok s)
    (honest : Curve.p256.mul x u = .ok right) (wrong : s ≠ right) :
    (∀ a₁ a₂ : Point, ∀ e < order, ∀ e' < order, ∀ z z' : ℕ,
      recompute y s u e z = .ok (a₁, a₂) → recompute y s u e' z' = .ok (a₁, a₂) → e = e') ∧
    ∀ (actor : ℤ) (challenge response : Bytes),
      verifyShare ⟨actor, point, challenge, response⟩ publicShare c = .ok true →
      ∃ (e z : ℕ) (a₁ a₂ : Point), e < order ∧ Scalar.ofBytes challenge = .ok e ∧
        Scalar.ofBytes response = .ok z ∧ recompute y s u e z = .ok (a₁, a₂) ∧
        linkChallenge y s a₁ a₂ c = .ok e ∧
        ∀ e' < order, ∀ z', recompute y s u e' z' = .ok (a₁, a₂) → e' = e := by
  obtain ⟨U, -, rfl⟩ := exists_of_decodePoint ephemeral
  obtain ⟨S, -, rfl⟩ := exists_of_decodePoint answered
  rw [mulBase_eq_baseMultiple, Except.ok.injEq] at multiplied
  subst multiplied
  rw [Curve.mul_eq_smul, Except.ok.injEq] at honest
  subst honest
  have apart : S ≠ (x : ZMod order) • U := fun same => wrong (by rw [same])
  have unique : ∀ a₁ a₂ : Point, ∀ e < order, ∀ e' < order, ∀ z z' : ℕ,
      recompute (baseMultiple x).point S.point U.point e z = .ok (a₁, a₂) →
      recompute (baseMultiple x).point S.point U.point e' z' = .ok (a₁, a₂) → e = e' :=
    fun a₁ a₂ e e_lt e' e'_lt z z' first second =>
      challenge_unique apart e_lt e'_lt (first.trans second.symm)
  refine ⟨unique, fun actor challenge response passes => ?_⟩
  obtain ⟨-, y, s, u, a₁, a₂, e, z, y_read, s_read, u_read, e_read, z_read, recomputed, -, -,
    hashed⟩ := verifyShare_eq_true_iff.mp passes
  cases known.symm.trans y_read
  cases answered.symm.trans s_read
  cases ephemeral.symm.trans u_read
  have e_lt := Scalar.lt_of_ofBytes e_read
  exact ⟨e, z, a₁, a₂, e_lt, e_read, z_read, recomputed, hashed, fun e' e'_lt z' fits =>
    unique a₁ a₂ e' e'_lt e e_lt z' z fits recomputed⟩

/-- Twice the ephemeral point is a wrong answer for the secret one, which needs one value of the
hash as every wrong answer does. -/
theorem twice_ephemeral_needs_hash :
    ∃ (c : Ciphertext) (publicShare point : Bytes) (y s u right : Point),
      c.verify = .ok true ∧ decodePoint c.ephemeral = .ok u ∧ Curve.p256.mulBase 1 = .ok y ∧
        decodePoint publicShare = .ok y ∧ decodePoint point = .ok s ∧
        Curve.p256.mul 1 u = .ok right ∧ s ≠ right ∧
        ∀ (actor : ℤ) (challenge response : Bytes),
          verifyShare ⟨actor, point, challenge, response⟩ publicShare c = .ok true →
          ∃ (e z : ℕ) (a₁ a₂ : Point), recompute y s u e z = .ok (a₁, a₂) ∧
            linkChallenge y s a₁ a₂ c = .ok e ∧
            ∀ e' < order, ∀ z', recompute y s u e' z' = .ok (a₁, a₂) → e' = e := by
  obtain ⟨c, holds, -⟩ := Ciphertext.exists_verify_of_empty_payload
  obtain ⟨U, -, -, -, U_ne, ephemeral, -⟩ := Ciphertext.verify_eq_true_iff.mp holds
  have one_ne : ((1 : ℤ) : ZMod order) ≠ 0 := by exact_mod_cast one_ne_zero
  have G_ne := baseMultiple_ne_zero one_ne
  have two_ne : (2 : ZMod order) ≠ 0 := by
    exact_mod_cast Scalar.cast_ne_zero (k := 2) (by decide) (by decide)
  have double_ne : (2 : ZMod order) • U ≠ 0 := smul_ne_zero two_ne U_ne
  have wrong : ((2 : ZMod order) • U).point ≠ (((1 : ℤ) : ZMod order) • U).point := by
    rw [ne_eq, ← Curve.Element.ext_iff, ← sub_eq_zero, ← sub_smul]
    push_cast
    exact smul_ne_zero (by norm_num) U_ne
  obtain ⟨-, luck⟩ := wrong_point_needs_hash (x := 1) ephemeral (mulBase_eq_baseMultiple 1)
    (decodePoint_encoded G_ne) (decodePoint_encoded double_ne) (Curve.mul_eq_smul U 1) wrong
  refine ⟨c, _, _, _, _, _, _, holds, ephemeral, mulBase_eq_baseMultiple 1,
    decodePoint_encoded G_ne, decodePoint_encoded double_ne, Curve.mul_eq_smul U 1, wrong,
    fun actor challenge response passes => ?_⟩
  obtain ⟨e, z, a₁, a₂, -, -, -, recomputed, hashed, unique⟩ :=
    luck actor challenge response passes
  exact ⟨e, z, a₁, a₂, recomputed, hashed, unique⟩

end Soundness

end Threshold

end Quorum
