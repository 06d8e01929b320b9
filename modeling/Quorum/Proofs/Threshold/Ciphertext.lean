import Quorum.Proofs.Scalar
import Quorum.Threshold.Ciphertext

/-!
# What the proof of a ciphertext says

The check of a ciphertext is an equation between points of P-256. It can be asked of any fields; a
ciphertext that passes it has an ephemeral point that is not at infinity and fields that fit behind
their lengths, so that its digest exists.

## Main definitions

* `Ciphertext.Fits` — every field fits behind its length

## Main results

* `Ciphertext.exists_framing` — what a digest is the hash of
* `Ciphertext.verify_eq_true_iff` — the equation that a ciphertext passes
* `Ciphertext.exists_digest_of_verify` — a ciphertext that passes has a digest
* `Ciphertext.eq_tooBig_of_verify` — the check only fails on a field that does not fit
-/

namespace Quorum

/-- Encoded points that can be read are points of P-256 that are not at infinity. -/
theorem exists_of_decodePoint {data : Bytes} {P : Point} (read : decodePoint data = .ok P) :
    ∃ Q : P256, Q ≠ 0 ∧ P = Q.point :=
  Curve.exists_of_decode read

/-- An encoded point is read back. -/
theorem decodePoint_encoded {P : P256} (nonzero : P ≠ 0) :
    decodePoint P.encoded = .ok P.point :=
  Curve.decode_encoded nonzero

namespace Ciphertext

open Curve (Element)

/-- The domain fits, so the transcript of a proof fits if its parts do. -/
theorem transcript_fits {parts : List Bytes} (fit : ∀ part ∈ parts, part.length < 256 ^ 4) :
    (Transcript.mk (Bytes.ascii "conclave/ciphertext") parts).Fits := by
  have domain : (Bytes.ascii "conclave/ciphertext").length < 256 ^ 2 := by decide
  exact ⟨domain, fit⟩

/-- The fields in the order in which they are hashed. -/
def fields (c : Ciphertext) : List Bytes :=
  [c.ephemeral, c.nonce, c.sealed, c.commitment, c.response]

/-- Every field fits behind its length. -/
def Fits (c : Ciphertext) : Prop := ∀ field ∈ c.fields, field.length < 2 ^ 32

/-- A ciphertext whose fields fit is hashed to its digest. -/
theorem exists_framing {c : Ciphertext} (fits : c.Fits) :
    ∃ b, c.framing = .ok b ∧ c.digest = .ok (sha256 b) := by
  obtain ⟨framed, isOk⟩ := frameAll_of_fit fits
  have hashed : c.framing = .ok framed := isOk
  exact ⟨framed, hashed, by rw [digest, hashed]; rfl⟩

/-- The equation of the proof, between points of P-256. -/
theorem proofHolds_eq (U R : P256) (e z : ℤ) :
    proofHolds U.point R.point e z =
      .ok (decide (baseMultiple z = R + (e : ZMod order) • U)) := by
  simp only [proofHolds, mulBase_eq_baseMultiple, Curve.mul_eq_smul, Outcome.bind_ok,
    Curve.add_point]
  congr 1
  rw [Bool.eq_iff_iff, beq_iff_eq, decide_eq_true_iff, Element.ext_iff]

/-- A ciphertext passes the check if its points and its response can be read, the fields of the
challenge fit, and the equation of the proof holds. -/
theorem verify_eq_true_iff {c : Ciphertext} :
    c.verify = .ok true ↔ ∃ (U R : P256) (z e : ℕ), U ≠ 0 ∧
      decodePoint c.ephemeral = .ok U.point ∧ decodePoint c.commitment = .ok R.point ∧
      Scalar.ofBytes c.response = .ok z ∧ c.challenge = .ok e ∧
      baseMultiple z = R + (e : ZMod order) • U := by
  constructor
  · intro holds
    simp only [verify] at holds
    split at holds
    · cases holds
    · next u r z read =>
      simp only [opening, Outcome.bind_eq_ok, Except.ok.injEq, Prod.mk.injEq] at read
      obtain ⟨u', u_read, r', r_read, z', z_read, rfl, rfl, rfl⟩ := read
      obtain ⟨U, U_ne, rfl⟩ := exists_of_decodePoint u_read
      obtain ⟨R, -, rfl⟩ := exists_of_decodePoint r_read
      obtain ⟨e, challenged, equation⟩ := Outcome.bind_eq_ok.mp holds
      rw [Outcome.lift_eq_ok, proofHolds_eq, Except.ok.injEq, decide_eq_true_iff] at equation
      exact ⟨U, R, z', e, U_ne, u_read, r_read, z_read, challenged, by exact_mod_cast equation⟩
  · rintro ⟨U, R, z, e, -, u_read, r_read, z_read, challenged, equation⟩
    have read : c.opening = .ok (U.point, R.point, z) := by
      simp only [opening, u_read, r_read, z_read, Outcome.bind_ok]
    simp only [verify, read, challenged, Outcome.bind_ok, proofHolds_eq, Outcome.lift_ok]
    rw [decide_eq_true (by exact_mod_cast equation)]

/-- The response `s + e r` passes the check for the ephemeral point `r · G` and the commitment
`s · G`. -/
theorem verify_of_response {c : Ciphertext} {r s : ℤ} {e : ℕ} (r_ne : (r : ZMod order) ≠ 0)
    (s_ne : (s : ZMod order) ≠ 0) (ephemeral : c.ephemeral = (baseMultiple r).encoded)
    (committed : c.commitment = (baseMultiple s).encoded) (challenged : c.challenge = .ok e)
    (response : c.response = Scalar.toBytes (s + e * r)) : c.verify = .ok true := by
  refine verify_eq_true_iff.mpr ⟨baseMultiple r, baseMultiple s, _, e, baseMultiple_ne_zero r_ne,
    ?_, ?_, response ▸ Scalar.ofBytes_toBytes _, challenged, ?_⟩
  · rw [ephemeral, decodePoint_encoded (baseMultiple_ne_zero r_ne)]
  · rw [committed, decodePoint_encoded (baseMultiple_ne_zero s_ne)]
  · rw [baseMultiple, Scalar.cast_residue, baseMultiple, baseMultiple, smul_smul, ← add_smul]
    push_cast
    rfl

/-- A sender who knows the logarithms of the points can make a ciphertext without a payload that
passes the check. -/
theorem exists_verify_of_empty_payload : ∃ c : Ciphertext, c.verify = .ok true ∧ c.sealed = [] := by
  have one_ne : ((1 : ℤ) : ZMod order) ≠ 0 := by exact_mod_cast one_ne_zero
  have G_ne := baseMultiple_ne_zero one_ne
  obtain ⟨e, challenged⟩ : ∃ e, Ciphertext.challengeFor (baseMultiple 1).encoded [] []
      (baseMultiple 1).encoded = .ok e := by
    refine Transcript.challenge_of_fits (transcript_fits ?_)
    simp [Element.length_encoded G_ne]
  exact ⟨⟨(baseMultiple 1).encoded, [], [], (baseMultiple 1).encoded, Scalar.toBytes (1 + e * 1)⟩,
    verify_of_response one_ne one_ne rfl rfl challenged rfl, rfl⟩

/-- The fields of a ciphertext that passes the check fit behind their lengths. -/
theorem short_of_verify {c : Ciphertext} (holds : c.verify = .ok true) :
    ∀ field ∈ [c.ephemeral, c.nonce, c.sealed, c.commitment], field.length < 2 ^ 32 := by
  obtain ⟨U, R, z, e, -, -, -, -, challenged, -⟩ := verify_eq_true_iff.mp holds
  exact (Transcript.fits_of_challenge challenged).parts

/-- The digest of a ciphertext that passes the check exists. -/
theorem exists_digest_of_verify {c : Ciphertext} (holds : c.verify = .ok true) :
    ∃ digest, c.digest = .ok digest ∧ digest.length = 32 := by
  obtain ⟨U, R, z, e, -, -, -, z_read, -, -⟩ := verify_eq_true_iff.mp holds
  have short := short_of_verify holds
  have response := Scalar.length_of_ofBytes z_read
  have fits : c.Fits := by
    simp only [Fits, fields, List.forall_mem_cons, List.not_mem_nil, false_implies, implies_true,
      and_true] at short ⊢
    exact ⟨short.1, short.2.1, short.2.2.1, short.2.2.2, by omega⟩
  obtain ⟨framed, -, digested⟩ := exists_framing fits
  exact ⟨sha256 framed, digested, length_sha256 framed⟩

/-- The check fails only on a field that does not fit behind its length. -/
theorem eq_tooBig_of_verify {c : Ciphertext} {f : Fault} (failed : c.verify = .error f) :
    f = .tooBig ∧
      ∃ field ∈ [c.ephemeral, c.nonce, c.sealed, c.commitment], 2 ^ 32 ≤ field.length := by
  simp only [verify] at failed
  split at failed
  · cases failed
  · next u r z read =>
    simp only [opening, Outcome.bind_eq_ok, Except.ok.injEq, Prod.mk.injEq] at read
    obtain ⟨u', u_read, r', r_read, z', z_read, rfl, rfl, rfl⟩ := read
    obtain ⟨U, -, rfl⟩ := exists_of_decodePoint u_read
    obtain ⟨R, -, rfl⟩ := exists_of_decodePoint r_read
    by_cases fits : (Transcript.mk (Bytes.ascii "conclave/ciphertext")
        [c.ephemeral, c.nonce, c.sealed, c.commitment]).Fits
    -- With a challenge the check is a comparison of two points.
    · obtain ⟨e, challenged⟩ := Transcript.challenge_of_fits fits
      rw [challenge, challengeFor, challenged, Outcome.bind_ok, proofHolds_eq] at failed
      cases failed
    · rw [challenge, challengeFor, Transcript.challenge_of_not_fits fits] at failed
      cases failed
      refine ⟨rfl, ?_⟩
      by_contra short
      push Not at short
      exact fits (transcript_fits short)

/-- The check fails on a nonce that does not fit behind its length. -/
theorem verify_of_wide {c : Ciphertext} (holds : c.verify = .ok true) {nonce : Bytes}
    (wide : 2 ^ 32 ≤ nonce.length) : { c with nonce }.verify = .error .tooBig := by
  obtain ⟨U, R, z, e, -, u_read, r_read, z_read, -, -⟩ := verify_eq_true_iff.mp holds
  have read : { c with nonce }.opening = .ok (U.point, R.point, z) := by
    simp only [opening, u_read, r_read, z_read, Outcome.bind_ok]
  have notFits : ¬(Transcript.mk (Bytes.ascii "conclave/ciphertext")
      [c.ephemeral, nonce, c.sealed, c.commitment]).Fits :=
    fun fits => absurd (fits.parts nonce (by simp)) (not_lt.mpr wide)
  simp only [verify, read]
  rw [challenge, challengeFor, Transcript.challenge_of_not_fits notFits]
  rfl

end Ciphertext

end Quorum
