import Quorum.Proofs.Threshold.Encryption

/-!
# Every quorum decrypts, and all quorums agree

What a dealer hands out, a sender encrypts and any quorum answers fits together: combining the
answers gives the message back. For a ciphertext of any origin that passes the check, combining
has the outcome that opening with the secret itself has, whichever quorum answers.

## Main results

* `Threshold.combine_answers_eq_openWithSecret` — any quorum decrypts like the secret
* `Threshold.combine_answers_encrypt` — any quorum decrypts what was encrypted
-/

namespace Quorum

namespace Threshold

section Dealt

variable {keys : KeySet} {secrets : List SecretShare} {parties threshold : ℤ} {draw : ℕ → ℕ}

/-- Any quorum of the holders of shares opens a ciphertext that passes the check with the secret
times its ephemeral point. -/
theorem combine_answers_of_dealt {secret : ℤ} {rest : List ℤ}
    (dealt : Dealt keys secrets (secret :: rest)) (nonzero : ∀ s ∈ secrets, s.value ≠ 0)
    {c : Ciphertext} (holds : c.verify = .ok true) {U : P256} (U_ne : U ≠ 0)
    (read : decodePoint c.ephemeral = .ok U.point) {quorum : List SecretShare}
    (distinct : quorum.Nodup) (known : quorum ⊆ secrets) (enough : keys.threshold < quorum.length) :
    (do
      let shares ← answers quorum c
      combine shares keys c) = opened (openPayload ((secret : ZMod order) • U).point c) := by
  obtain ⟨shares, answered, size, consistent⟩ :=
    consistent_answers dealt nonzero distinct known holds U_ne read
  have length := dealt.length
  rw [List.length_cons, Nat.add_right_cancel_iff] at length
  rw [answered, Outcome.bind_ok]
  exact combine_eq_openPayload consistent length (size ▸ enough)

/-- The drawn secret of a dealt society, with the facts that its quorums rely on. -/
theorem exists_dealt (isOk : generate parties threshold draw = .ok (keys, secrets))
    (small : parties < order) :
    (∃ rest, Dealt keys secrets ((Scalar.ofDraw (draw 0) : ℤ) :: rest)) ∧
      (keys.threshold : ℤ) = threshold := by
  obtain ⟨positive, -⟩ := bounds_of_generate isOk
  obtain ⟨rest, coefficients_eq, length⟩ := coefficients_eq_cons threshold.toNat draw
  have dealt := dealt_of_generate isOk small
  have lengths := dealt.length
  rw [length_coefficients] at lengths
  exact ⟨⟨rest, coefficients_eq ▸ dealt⟩, by omega⟩

/-- Any quorum of a dealt society opens a ciphertext that passes the check, whoever made it, as the
secret itself does: with the payload under the key of the secret times the ephemeral point, or with
the refusal to combine when that key does not open it. -/
theorem combine_answers_eq_openWithSecret
    (isOk : generate parties threshold draw = .ok (keys, secrets)) (small : parties < order)
    (nonzero : ∀ s ∈ secrets, s.value ≠ 0) {c : Ciphertext} (holds : c.verify = .ok true) :
    ∃ (U S : Point) (key : Bytes), decodePoint c.ephemeral = .ok U ∧
      Curve.p256.mul (Scalar.ofDraw (draw 0)) U = .ok S ∧ payloadKey S c.ephemeral = .ok key ∧
      ∀ quorum : List SecretShare, quorum.Nodup → quorum ⊆ secrets → threshold < quorum.length →
        (do
          let shares ← answers quorum c
          combine shares keys c) = openWithSecret (Scalar.ofDraw (draw 0)) c ∧
        (do
          let shares ← answers quorum c
          combine shares keys c) =
          match Gcm.decrypt? key c.nonce c.ephemeral c.sealed with
          | some m => .ok m
          | none => .error .notCombined := by
  obtain ⟨⟨rest, dealt⟩, threshold_eq⟩ := exists_dealt isOk small
  obtain ⟨U, -, -, -, U_ne, read, -⟩ := Ciphertext.verify_eq_true_iff.mp holds
  have shared_ne := smul_ne_zero (Scalar.cast_ofDraw_ne_zero (draw 0)) U_ne
  have keyed := payloadKey_eq_ok shared_ne c.ephemeral
  refine ⟨U.point, _, _, read, Curve.mul_eq_smul U _, keyed, fun quorum distinct known enough => ?_⟩
  have combined := combine_answers_of_dealt dealt nonzero holds U_ne read distinct known (by omega)
  exact ⟨combined.trans (openWithSecret_eq_openPayload _ read).symm,
    combined.trans (opened_openPayload keyed)⟩

/-- The shares of two holders when every draw is zero: the values of `1 + x` at one and two. -/
theorem secrets_of_zero_draws (isOk : generate 2 1 (fun _ => 0) = .ok (keys, secrets)) :
    secrets = [⟨0, 2⟩, ⟨1, 3⟩] :=
  (secrets_of_generate isOk).trans (by decide +kernel)

/-- A quorum refuses to combine a ciphertext without a payload that passes the check. -/
theorem combine_answers_of_empty_payload :
    ∃ keys secrets c, generate 2 1 (fun _ => 0) = .ok (keys, secrets) ∧ c.verify = .ok true ∧
      c.sealed = [] ∧
      (do
        let shares ← answers secrets.reverse c
        combine shares keys c) = .error .notCombined := by
  obtain ⟨keys, -, -, isOk⟩ := generate_eq_ok (fun _ => 0) (by decide : (0 : ℤ) < 1) one_lt_two
  obtain ⟨c, holds, empty⟩ := Ciphertext.exists_verify_of_empty_payload
  have secrets_eq := secrets_of_zero_draws isOk
  have small : (2 : ℤ) < order := by decide
  obtain ⟨-, -, key, -, -, -, quorums⟩ := combine_answers_eq_openWithSecret isOk small
    (by rw [secrets_eq]; decide) holds
  have undecryptable : Gcm.decrypt? key c.nonce c.ephemeral c.sealed = none := by
    simp [Gcm.decrypt?, empty]
  simp only [undecryptable] at quorums
  refine ⟨keys, _, c, isOk, holds, empty, (quorums _ ?_ ?_ ?_).2⟩
  · rw [secrets_eq]
    decide
  · exact fun s member => List.mem_reverse.mp member
  · rw [secrets_eq]
    decide

/-- Dealing succeeds, and when no share is zero every message that may be sealed is encrypted and
any quorum of the holders combines its answers into the message. -/
theorem combine_answers_encrypt (positive : 0 < threshold) (below : threshold < parties)
    (small : parties < order) (draw : ℕ → ℕ) :
    ∃ keys secrets, generate parties threshold draw = .ok (keys, secrets) ∧
      ((∀ s ∈ secrets, s.value ≠ 0) → ∀ (message : Bytes) (draws : Draws),
        message.length < 2 ^ 31 → draws.nonce.length = 12 →
        ∃ c, encrypt (.set keys) message draws = .ok c ∧
          ∀ quorum : List SecretShare, quorum.Nodup → quorum ⊆ secrets →
            threshold < quorum.length →
            (do
              let shares ← answers quorum c
              combine shares keys c) = .ok message) := by
  obtain ⟨keys, -, -, isOk⟩ := generate_eq_ok draw positive below
  refine ⟨keys, _, isOk, fun nonzero message draws short nonce => ?_⟩
  obtain ⟨⟨rest, dealt⟩, threshold_eq⟩ := exists_dealt isOk small
  have secret_ne := Scalar.cast_ofDraw_ne_zero (draw 0)
  have publicKey : (SocietyKey.set keys).publicKey = .ok _ := congrArg Except.ok dealt.publicKey_eq
  obtain ⟨c, U, key, encrypted, holds, U_ne, read, keyed, key_length, nonce_eq, sealed_eq⟩ :=
    encrypt_eq_ok secret_ne publicKey message draws (by omega) (by omega)
  refine ⟨c, encrypted, fun quorum distinct known enough => ?_⟩
  have fits : Gcm.nonceFits draws.nonce = true := by simp [Gcm.nonceFits, nonce]
  rw [combine_answers_of_dealt dealt nonzero holds U_ne read distinct known (by omega),
    opened_openPayload keyed, nonce_eq, sealed_eq, Gcm.decrypt?_encrypt key_length fits]

/-- Two holders decrypt a short message, whichever answers first. -/
theorem combine_answers_encrypt_two_holders :
    ∃ keys secrets c, generate 2 1 (fun _ => 0) = .ok (keys, secrets) ∧
      encrypt (.set keys) [104, 105] ⟨0, List.replicate 12 0, 0⟩ = .ok c ∧
      (do
        let shares ← answers secrets.reverse c
        combine shares keys c) = .ok [104, 105] := by
  obtain ⟨keys, secrets, isOk, decrypts⟩ :=
    combine_answers_encrypt (by decide : (0 : ℤ) < 1) (by decide : (1 : ℤ) < 2) (by decide)
      fun _ => 0
  have secrets_eq := secrets_of_zero_draws isOk
  obtain ⟨c, encrypted, quorums⟩ := decrypts (by rw [secrets_eq]; decide) [104, 105]
    ⟨0, List.replicate 12 0, 0⟩ (by decide) (by decide)
  refine ⟨keys, secrets, c, isOk, encrypted, quorums _ ?_ ?_ ?_⟩
  · rw [secrets_eq]
    decide
  · exact fun s member => List.mem_reverse.mp member
  · rw [secrets_eq]
    decide

end Dealt

end Threshold

end Quorum
