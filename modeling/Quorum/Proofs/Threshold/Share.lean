import Quorum.Proofs.Threshold.Ciphertext
import Quorum.Threshold.Scheme

/-!
# Answers exist, and checking them is total

The holder of a secret share that is not zero can answer every ciphertext that passes the check,
and the point of the answer is the secret times the ephemeral point. Whether an answer is right is
decided for every answer whatever its fields are, as soon as the check of the ciphertext is.

## Main results

* `Threshold.answer_eq_ok` — the fields of an answer
* `Threshold.decryptShare_eq_ok` — a holder answers a ciphertext that passes the check, rightly
* `Threshold.verifyShare_isOk`, `Threshold.eq_tooBig_of_verifyShare` — when the check of an answer
  is decided
-/

namespace Quorum

namespace Threshold

open Curve (Element)

/-- A transcript of a domain and at most 33 bytes in every part has a challenge. -/
private theorem exists_challenge {domain : Bytes} {parts : List Bytes}
    (short : domain.length < 256 ^ 2) (points : ∀ part ∈ parts, part.length ≤ 33) :
    ∃ e, (Transcript.mk domain parts).challenge = .ok e :=
  Transcript.challenge_of_fits ⟨short, fun part member =>
    (points part member).trans_lt (by decide)⟩

/-- The transcript that links two points has a challenge. -/
theorem exists_linkChallenge {Y S A₁ A₂ : P256} (Y_ne : Y ≠ 0) (S_ne : S ≠ 0) (A₁_ne : A₁ ≠ 0)
    (A₂_ne : A₂ ≠ 0) {digest : Bytes} (length : digest.length = 32) :
    ∃ e, (linkTranscript Y.encoded S.encoded A₁.encoded A₂.encoded digest).challenge = .ok e := by
  refine exists_challenge (by decide) ?_
  simp [Element.length_encoded, Y_ne, S_ne, A₁_ne, A₂_ne, length]

variable {U : P256} {digest : Bytes}

/-- The answer for a secret that is not zero. -/
theorem answer_eq_ok {index x : ℤ} (index_nonneg : 0 ≤ index) (x_ne : (x : ZMod order) ≠ 0)
    (U_ne : U ≠ 0) (length : digest.length = 32) :
    ∃ w e : ℕ, (w : ZMod order) ≠ 0 ∧
      (linkTranscript (baseMultiple x).encoded
        ((x : ZMod order) • U).encoded (baseMultiple w).encoded
        ((w : ZMod order) • U).encoded digest).challenge = .ok e ∧
      answer index x U.point digest = .ok ⟨index, ((x : ZMod order) • U).encoded,
        Scalar.toBytes e, Scalar.toBytes (w + e * x)⟩ := by
  obtain ⟨drawn, nonce⟩ : ∃ drawn, (nonceTranscript x digest).challenge = .ok drawn :=
    exists_challenge (by decide) (by simp [Scalar.toBytes, length])
  set w := if drawn = 0 then 1 else drawn with w_def
  have drawn_lt := Transcript.lt_of_challenge nonce
  have w_ne : (w : ZMod order) ≠ 0 := by
    rw [w_def]
    split
    · exact_mod_cast one_ne_zero
    · next positive =>
      exact_mod_cast Scalar.cast_ne_zero (k := drawn) (by omega) (by exact_mod_cast drawn_lt)
  have base_ne := Element.base_ne_zero (E := Curve.p256)
  have xG_ne := smul_ne_zero x_ne base_ne
  have xU_ne := smul_ne_zero x_ne U_ne
  have wG_ne := smul_ne_zero w_ne base_ne
  have wU_ne := smul_ne_zero w_ne U_ne
  obtain ⟨e, linked⟩ := exists_linkChallenge xG_ne xU_ne wG_ne wU_ne length
  refine ⟨w, e, w_ne, linked, ?_⟩
  have checked : ¬index < 0 := by omega
  simp only [answer, Curve.mulBase_eq_smul, Curve.mul_eq_smul, Outcome.lift_ok, Outcome.bind_ok,
    Curve.compress_point, xG_ne, xU_ne, nonce, ← w_def, Int.cast_natCast, ne_eq, not_false_eq_true,
    Curve.compress_point wG_ne, Curve.compress_point wU_ne, linked]
  rw [DecryptionShare.check, if_neg checked]
  rfl

/-- The response `w + e x` takes the multiple by the challenge back off: both sums of the check are
the multiples by `w`. -/
theorem response_smul_add (x w e : ℤ) (P : P256) :
    ((((w + e * x) % order).toNat : ℤ) : ZMod order) • P +
      (((order : ℤ) - e : ℤ) : ZMod order) • (x : ZMod order) • P = (w : ZMod order) • P := by
  rw [Scalar.cast_residue, smul_smul, ← add_smul]
  congr 1
  push_cast
  rw [ZMod.natCast_self]
  ring

/-- An answer that was made for a ciphertext passes the check against every encoding of the public
share. -/
theorem verifyShare_answer {index x : ℤ} {w e : ℕ} {c : Ciphertext} {publicShare : Bytes}
    (x_ne : (x : ZMod order) ≠ 0) (w_ne : (w : ZMod order) ≠ 0) (U_ne : U ≠ 0)
    (linked : (linkTranscript (baseMultiple x).encoded ((x : ZMod order) • U).encoded
      (baseMultiple w).encoded ((w : ZMod order) • U).encoded digest).challenge = .ok e)
    (holds : c.verify = .ok true) (read : decodePoint c.ephemeral = .ok U.point)
    (digested : c.digest = .ok digest)
    (known : decodePoint publicShare = .ok (baseMultiple x).point) :
    verifyShare ⟨index, ((x : ZMod order) • U).encoded, Scalar.toBytes e,
      Scalar.toBytes (w + e * x)⟩ publicShare c = .ok true := by
  have Y_ne := baseMultiple_ne_zero x_ne
  have S_ne := smul_ne_zero x_ne U_ne
  have A₁_ne : baseMultiple w ≠ 0 := baseMultiple_ne_zero (by exact_mod_cast w_ne)
  have A₂_ne := smul_ne_zero w_ne U_ne
  have challenge : Scalar.ofBytes (Scalar.toBytes e) = .ok e := by
    have e_lt : (e : ℤ) < order := by exact_mod_cast Transcript.lt_of_challenge linked
    rw [Scalar.ofBytes_toBytes, Int.emod_eq_of_lt (by omega) e_lt, Int.toNat_natCast]
  set z := ((w + e * x : ℤ) % order).toNat with z_def
  -- What the verifier recomputes are the commitments of the prover.
  have recomputed : recompute (baseMultiple x).point ((x : ZMod order) • U).point U.point e z =
      .ok ((baseMultiple w).point, ((w : ZMod order) • U).point) := by
    have first := response_smul_add x w e Curve.Element.base
    have second := response_smul_add x w e U
    simp only [← z_def, Int.cast_natCast] at first second
    simp only [recompute, Curve.mulBase_eq_smul, Curve.mul_eq_smul, Curve.add_point, baseMultiple,
      Outcome.bind_ok, first, second, Int.cast_natCast]
  have finite :
      ¬((baseMultiple w).point = .infinity ∨ ((w : ZMod order) • U).point = .infinity) := by
    rw [← Element.eq_zero_iff, ← Element.eq_zero_iff, not_or]
    exact ⟨A₁_ne, A₂_ne⟩
  simp only [verifyShare, holds, Outcome.bind_ok, Bool.not_true, Bool.false_eq_true, if_false,
    reading, known, decodePoint_encoded S_ne, read, challenge, Scalar.ofBytes_toBytes, ← z_def,
    recomputed, Outcome.lift_ok, if_neg finite, digested, Curve.compress_point Y_ne,
    Curve.compress_point S_ne, Curve.compress_point A₁_ne, Curve.compress_point A₂_ne, linked,
    beq_self_eq_true]

/-- A holder answers every ciphertext that passes the check, by the secret times its ephemeral
point, and the answer passes the check against every encoding of the holder's public share. -/
theorem decryptShare_eq_ok {secret : SecretShare} {c : Ciphertext} (index_nonneg : 0 ≤ secret.index)
    (positive : 0 < secret.value) (below : secret.value < order) (holds : c.verify = .ok true)
    (U_ne : U ≠ 0) (read : decodePoint c.ephemeral = .ok U.point) :
    ∃ share, decryptShare secret c = .ok share ∧ share.actor = secret.index ∧
      share.point = ((secret.value : ZMod order) • U).encoded ∧
      ∀ publicShare, decodePoint publicShare = .ok (baseMultiple secret.value).point →
        verifyShare share publicShare c = .ok true := by
  have x_ne := Scalar.cast_ne_zero positive below
  obtain ⟨digest, digested, length⟩ := Ciphertext.exists_digest_of_verify holds
  obtain ⟨w, e, w_ne, linked, answered⟩ := answer_eq_ok index_nonneg x_ne U_ne length
  refine ⟨⟨secret.index, _, Scalar.toBytes e, Scalar.toBytes (w + e * secret.value)⟩, ?_, rfl, rfl,
    fun publicShare known => verifyShare_answer x_ne w_ne U_ne linked holds read digested known⟩
  simp only [decryptShare, positive, below, holds, read, digested, Outcome.bind_ok, Outcome.lift_ok,
    and_self, not_true_eq_false, if_false, Bool.not_true, Bool.false_eq_true]
  exact answered

/-- Whether an answer is right is decided for every ciphertext that passes the check. -/
theorem verifyShare_isOk (share : DecryptionShare) (publicShare : Bytes) {c : Ciphertext}
    (holds : c.verify = .ok true) : ∃ right, verifyShare share publicShare c = .ok right := by
  obtain ⟨digest, digested, length⟩ := Ciphertext.exists_digest_of_verify holds
  simp only [verifyShare, holds, Outcome.bind_ok, Bool.not_true, Bool.false_eq_true, if_false]
  split
  · exact ⟨false, rfl⟩
  · next y s u challenge response read =>
    simp only [reading, Outcome.bind_eq_ok, Except.ok.injEq, Prod.mk.injEq] at read
    obtain ⟨y', y_read, s', s_read, u', u_read, _, -, _, -, rfl, rfl, rfl, rfl, rfl⟩ := read
    -- Whatever can be read is a point of the curve, on which no operation fails.
    obtain ⟨Y, Y_ne, rfl⟩ := exists_of_decodePoint y_read
    obtain ⟨S, S_ne, rfl⟩ := exists_of_decodePoint s_read
    obtain ⟨U, U_ne, rfl⟩ := exists_of_decodePoint u_read
    simp only [recompute, Curve.mulBase_eq_smul, Curve.mul_eq_smul, Curve.add_point,
      Outcome.bind_ok, Outcome.lift_ok]
    split
    · exact ⟨false, rfl⟩
    · next finite =>
      rw [← Element.eq_zero_iff, ← Element.eq_zero_iff, not_or] at finite
      obtain ⟨e, linked⟩ := exists_linkChallenge Y_ne S_ne finite.1 finite.2 length
      simp only [digested, Curve.compress_point Y_ne, Curve.compress_point S_ne,
        Curve.compress_point finite.1, Curve.compress_point finite.2, linked, Outcome.bind_ok]
      exact ⟨_, rfl⟩

/-- The check of an answer only fails when the check of the ciphertext does. -/
theorem eq_tooBig_of_verifyShare {share : DecryptionShare} {publicShare : Bytes} {c : Ciphertext}
    {f : Fault} (failed : verifyShare share publicShare c = .error f) :
    f = .tooBig ∧ c.verify = .error .tooBig := by
  cases checked : c.verify with
  | error f' =>
    obtain ⟨rfl, -⟩ := Ciphertext.eq_tooBig_of_verify checked
    rw [verifyShare, checked] at failed
    exact ⟨(Except.error.inj failed).symm, rfl⟩
  | ok wellFormed =>
    cases wellFormed with
    | false =>
      rw [verifyShare, checked] at failed
      cases failed
    | true =>
      obtain ⟨right, isOk⟩ := verifyShare_isOk share publicShare checked
      rw [isOk] at failed
      cases failed

end Threshold

end Quorum
