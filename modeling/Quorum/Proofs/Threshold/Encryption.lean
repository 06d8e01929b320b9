import Quorum.Proofs.Threshold.Combine

/-!
# Encrypting gives a ciphertext that passes the check

A sender draws the logarithms of the ephemeral point and of the commitment, and answers the
challenge by their combination. The challenge is a hash over everything but this response, so the
equation of the proof fixes the multiple of the base point by the response, and with it the scalar.
A scalar has one written form. So no field of a ciphertext that passes the check can be kept while
the response is changed, whoever made it.

## Main results

* `Threshold.encrypt_eq_ok_of_read` — encrypting to a point succeeds, and what the ciphertext holds
* `Threshold.fits_of_encrypt` — only messages that fit are encrypted, and only to points
* `Threshold.verify_of_encrypt` — what was encrypted passes the check
* `Ciphertext.response_unique` — all other fields leave one response at most
* `Threshold.encrypted_verify_with_one_response` — both, for any key set
-/

namespace Quorum

open Curve (Element)

namespace KeySet

/-- The public key of a key set is a point that is not at infinity. -/
theorem exists_publicKey (s : KeySet) :
    ∃ Y : P256, Y ≠ 0 ∧ decodePoint s.publicKey = .ok Y.point := by
  have nonempty : s.commitments ≠ [] := by
    apply List.ne_nil_of_length_pos
    rw [s.length_commitments]
    exact Nat.succ_pos _
  have member : s.publicKey ∈ s.commitments := by
    rw [publicKey, List.headD_eq_head?_getD, List.head?_eq_some_head nonempty]
    exact List.head_mem nonempty
  obtain ⟨P, read⟩ := Outcome.exists_of_isOk (s.isPoint_commitments s.publicKey member)
  obtain ⟨Y, Y_ne, rfl⟩ := exists_of_decodePoint read
  exact ⟨Y, Y_ne, read⟩

end KeySet

namespace Ciphertext

/-- The response of a ciphertext that passes the check cannot be replaced by another one. -/
theorem response_unique {c : Ciphertext} {response response' : Bytes}
    (first : { c with response }.verify = .ok true)
    (second : { c with response := response' }.verify = .ok true) : response = response' := by
  obtain ⟨U, R, z, e, -, U_read, R_read, z_read, challenged, equation⟩ :=
    verify_eq_true_iff.mp first
  obtain ⟨U', R', z', e', -, U_read', R_read', z_read', challenged', equation'⟩ :=
    verify_eq_true_iff.mp second
  -- The right side of the equation does not depend on the response.
  have U_eq : U = U' := Element.ext (Except.ok.inj (U_read.symm.trans U_read'))
  have R_eq : R = R' := Element.ext (Except.ok.inj (R_read.symm.trans R_read'))
  have e_eq : e = e' := Except.ok.inj (challenged.symm.trans challenged')
  subst U_eq R_eq e_eq
  have residues : (z : ZMod order) = z' := by
    exact_mod_cast cast_eq_of_baseMultiple_eq (equation.trans equation'.symm)
  have z_eq : z = z' :=
    Scalar.eq_of_natCast_eq (Scalar.lt_of_ofBytes z_read) (Scalar.lt_of_ofBytes z_read') residues
  calc response = Scalar.toBytes z := (Scalar.toBytes_of_ofBytes z_read).symm
    _ = Scalar.toBytes z' := by rw [z_eq]
    _ = response' := Scalar.toBytes_of_ofBytes z_read'

end Ciphertext

namespace Threshold

variable {society : SocietyKey} {message : Bytes} {draws : Draws} {c : Ciphertext}

/-- Encrypting to a point that is not at infinity succeeds for every message that fits, with a
ciphertext that passes the check and whose payload is sealed under the key of the shared point. -/
theorem encrypt_eq_ok_of_read {encoded : Bytes} {Y : P256} (Y_ne : Y ≠ 0)
    (publicKey : society.publicKey = .ok encoded) (read : decodePoint encoded = .ok Y.point)
    (message : Bytes) (draws : Draws) (short : message.length + 16 < 256 ^ 4)
    (nonce : draws.nonce.length < 256 ^ 4) :
    ∃ (c : Ciphertext) (r : ℤ) (key : Bytes), encrypt society message draws = .ok c ∧
      c.verify = .ok true ∧ (r : ZMod order) ≠ 0 ∧
      decodePoint c.ephemeral = .ok (baseMultiple r).point ∧
      payloadKey ((r : ZMod order) • Y).point c.ephemeral = .ok key ∧ key.length = 32 ∧
      c.nonce = draws.nonce ∧ c.sealed = Gcm.encrypt key draws.nonce c.ephemeral message := by
  set r := Scalar.ofDraw draws.ephemeral with r_def
  set s := Scalar.ofDraw draws.proof with s_def
  have r_ne : ((r : ℤ) : ZMod order) ≠ 0 := Scalar.cast_ofDraw_ne_zero _
  have s_ne : ((s : ℤ) : ZMod order) ≠ 0 := Scalar.cast_ofDraw_ne_zero _
  have U_ne := baseMultiple_ne_zero r_ne
  have R_ne := baseMultiple_ne_zero s_ne
  set ephemeral := (baseMultiple r).encoded with ephemeral_def
  obtain ⟨key, keyed, key_length⟩ : ∃ key,
      payloadKey (((r : ℤ) : ZMod order) • Y).point ephemeral = .ok key ∧ key.length = 32 :=
    ⟨_, payloadKey_eq_ok (smul_ne_zero r_ne Y_ne) ephemeral, length_hkdf _ _ _⟩
  set sealed := Gcm.encrypt key draws.nonce ephemeral message with sealed_def
  have sealed_length : sealed.length < 256 ^ 4 := by
    rwa [sealed_def, Gcm.length_encrypt key_length]
  -- The payload grows by its tag and still fits, so there is a challenge.
  obtain ⟨e, challenged⟩ : ∃ e, Ciphertext.challengeFor ephemeral draws.nonce sealed
      (baseMultiple s).encoded = .ok e := by
    refine Transcript.challenge_of_fits (Ciphertext.transcript_fits ?_)
    simp only [List.forall_mem_cons, ephemeral_def, Element.length_encoded U_ne,
      Element.length_encoded R_ne]
    exact ⟨by decide, nonce, sealed_length, by decide, by simp⟩
  refine ⟨⟨ephemeral, draws.nonce, sealed, (baseMultiple s).encoded, Scalar.toBytes (s + e * r)⟩,
    r, key, ?_, Ciphertext.verify_of_response r_ne s_ne rfl rfl challenged rfl, r_ne,
    decodePoint_encoded U_ne, keyed, key_length, rfl, rfl⟩
  -- No multiple that is encoded on the way is at infinity.
  simp only [encrypt, publicKey, read, mulBase_eq_baseMultiple, Curve.mul_eq_smul,
    Curve.compress_point U_ne, Curve.compress_point R_ne, Outcome.lift_ok, Outcome.bind_ok,
    ← r_def, ← s_def, ← ephemeral_def, keyed, ← sealed_def, challenged]

/-- Encrypting to the public key of a known secret, whose holders find the shared point as the
secret times the ephemeral point. -/
theorem encrypt_eq_ok {a : ℤ} (a_ne : (a : ZMod order) ≠ 0)
    (publicKey : society.publicKey = .ok (baseMultiple a).encoded) (message : Bytes)
    (draws : Draws) (short : message.length + 16 < 256 ^ 4) (nonce : draws.nonce.length < 256 ^ 4) :
    ∃ (c : Ciphertext) (U : P256) (key : Bytes), encrypt society message draws = .ok c ∧
      c.verify = .ok true ∧ U ≠ 0 ∧ decodePoint c.ephemeral = .ok U.point ∧
      payloadKey ((a : ZMod order) • U).point c.ephemeral = .ok key ∧ key.length = 32 ∧
      c.nonce = draws.nonce ∧ c.sealed = Gcm.encrypt key draws.nonce c.ephemeral message := by
  have Y_ne := baseMultiple_ne_zero a_ne
  obtain ⟨c, r, key, encrypted, holds, r_ne, read, keyed, payload⟩ :=
    encrypt_eq_ok_of_read Y_ne publicKey (decodePoint_encoded Y_ne) message draws short nonce
  -- The sender's and the holders' way to the shared point.
  have shared_eq : (a : ZMod order) • baseMultiple r = (r : ZMod order) • baseMultiple a := by
    rw [baseMultiple, baseMultiple, smul_smul, smul_smul, mul_comm]
  exact ⟨c, baseMultiple r, key, encrypted, holds, baseMultiple_ne_zero r_ne, read,
    shared_eq ▸ keyed, payload⟩

/-- What is encrypted is meant for a point, and its fields fit behind their lengths. -/
theorem fits_of_encrypt (encrypted : encrypt society message draws = .ok c) :
    ∃ (encoded : Bytes) (Y : P256), Y ≠ 0 ∧ society.publicKey = .ok encoded ∧
      decodePoint encoded = .ok Y.point ∧ message.length + 16 < 256 ^ 4 ∧
      draws.nonce.length < 256 ^ 4 := by
  simp only [encrypt, Outcome.bind_eq_ok] at encrypted
  obtain ⟨encoded, publicKey, y, read, -, -, ephemeral, -, shared, -, key, keyed, -, -, commitment,
    -, e, challenged, -⟩ := encrypted
  rw [Outcome.lift_eq_ok] at read
  obtain ⟨Y, Y_ne, rfl⟩ := exists_of_decodePoint read
  have key_length : key.length = 32 := by
    unfold payloadKey at keyed
    split at keyed
    · cases keyed
    · obtain ⟨secret, -, derived⟩ := Outcome.bind_eq_ok.mp keyed
      rw [← Except.ok.inj derived]
      exact length_hkdf ..
  -- The challenge exists, so everything that it hashes fits.
  have fits := (Transcript.fits_of_challenge challenged).parts
  have sealed := fits (Gcm.encrypt key draws.nonce ephemeral message) (by simp)
  rw [Gcm.length_encrypt key_length] at sealed
  exact ⟨encoded, Y, Y_ne, publicKey, read, sealed, fits draws.nonce (by simp)⟩

/-- What is encrypted fits behind its length. -/
theorem short_of_encrypt (encrypted : encrypt society message draws = .ok c) :
    message.length + 16 < 256 ^ 4 := by
  obtain ⟨-, -, -, -, -, short, -⟩ := fits_of_encrypt encrypted
  exact short

/-- What was encrypted passes the check. -/
theorem verify_of_encrypt (encrypted : encrypt society message draws = .ok c) :
    c.verify = .ok true := by
  -- Encrypting succeeds only where it is known to give a ciphertext that passes.
  obtain ⟨encoded, Y, Y_ne, publicKey, read, short, nonce⟩ := fits_of_encrypt encrypted
  obtain ⟨c', -, -, encrypted', holds, -⟩ :=
    encrypt_eq_ok_of_read Y_ne publicKey read message draws short nonce
  obtain rfl := Except.ok.inj (encrypted.symm.trans encrypted')
  exact holds

/-- Messages are encrypted to every key set, as long as they fit, and whatever encrypting returns
passes the check. Whoever made the other fields of a ciphertext, one response at most lets it pass
the check. -/
theorem encrypted_verify_with_one_response :
    (∀ (keys : KeySet) (message : Bytes) (draws : Draws), message.length < 2 ^ 31 →
      draws.nonce.length = 12 → ∃ c, encrypt (.set keys) message draws = .ok c) ∧
    (∀ (society : SocietyKey) (message : Bytes) (draws : Draws) (c : Ciphertext),
      encrypt society message draws = .ok c → c.verify = .ok true) ∧
    ∀ ephemeral nonce sealed commitment response response' : Bytes,
      Ciphertext.verify ⟨ephemeral, nonce, sealed, commitment, response⟩ = .ok true →
      Ciphertext.verify ⟨ephemeral, nonce, sealed, commitment, response'⟩ = .ok true →
      response = response' := by
  refine ⟨?_, ?_, ?_⟩
  · intro keys message draws short nonce
    obtain ⟨Y, Y_ne, read⟩ := keys.exists_publicKey
    have publicKey : (SocietyKey.set keys).publicKey = .ok keys.publicKey := rfl
    obtain ⟨c, -, -, encrypted, -⟩ :=
      encrypt_eq_ok_of_read Y_ne publicKey read message draws (by omega) (by omega)
    exact ⟨c, encrypted⟩
  · intro society message draws c encrypted
    exact verify_of_encrypt encrypted
  · intro ephemeral nonce sealed commitment response response' first second
    exact @Ciphertext.response_unique ⟨ephemeral, nonce, sealed, commitment, response⟩ response
      response' first second

/-- A greeting to two holders is encrypted, passes the check, and passes it with no other response
than its own. -/
theorem encrypted_greeting_verifies_with_one_response :
    ∃ keys secrets c, generate 2 1 (fun _ => 0) = .ok (keys, secrets) ∧
      encrypt (.set keys) [104, 105] ⟨0, List.replicate 12 0, 0⟩ = .ok c ∧
      c.verify = .ok true ∧ ∀ response, { c with response }.verify = .ok true →
        response = c.response := by
  obtain ⟨keys, -, -, isOk⟩ := generate_eq_ok (fun _ => 0) (by decide : (0 : ℤ) < 1) one_lt_two
  obtain ⟨encrypts, passes, unique⟩ := encrypted_verify_with_one_response
  obtain ⟨c, encrypted⟩ :=
    encrypts keys [104, 105] ⟨0, List.replicate 12 0, 0⟩ (by decide) List.length_replicate
  have holds := passes _ _ _ c encrypted
  refine ⟨keys, _, c, isOk, encrypted, holds, ?_⟩
  intro response accepted
  exact unique c.ephemeral c.nonce c.sealed c.commitment response c.response accepted holds

end Threshold

end Quorum
