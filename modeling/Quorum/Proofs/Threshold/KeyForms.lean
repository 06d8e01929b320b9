import Quorum.Proofs.Threshold.Encryption
import Quorum.Proofs.Threshold.Records

/-!
# The forms of a society key

Those who encrypt are handed a key set, its published form, or only the public key in it, and tell
the last two apart by their length. A published key set is read as the key set again, so these two
forms always give the same ciphertext. The public key of a key set is its first commitment as it was
given. In the compressed form it has the length of a bare key and is taken as one. A key set may
also hold it in the uncompressed form, and that is read as a document, which no byte string with its
form byte is.

## Main results

* `KeySet.publicKey_cases` — the public key is one of two forms of a point
* `KeySet.ofBytes_publicKey` — the uncompressed form is no document
* `Threshold.encrypt_isOk_or_tooBig` — how encrypting to a key set ends
* `Threshold.encrypt_to_forms` — which forms of a society key give the same ciphertext
* `Threshold.uncompressed_key_is_refused` — a key set whose public key cannot be encrypted to
-/

namespace Quorum

open Curve (Element)

/-- No document starts with the form byte of an uncompressed point. -/
theorem Json.ofBytes?_of_uncompressed (rest : Bytes) : Json.ofBytes? (4 :: rest) = none := by
  have first : Utf8.next? (4 :: rest) = some ('\x04', rest) := rfl
  unfold Json.ofBytes?
  rw [Utf8.decode?_cons first]
  cases Utf8.decode? rest with
  | none => rfl
  | some s =>
    -- The character is neither a space nor the start of a token.
    have token : Json.token? (('\x04' :: s).dropWhile Json.isSpace) = none := rfl
    have lexed : Json.lex? ('\x04' :: s) = none := by
      rw [Json.lex?]
      split
      · next empty => cases empty
      · split
        · rfl
        · next found =>
          rw [token] at found
          cases found
    change Json.parse? ('\x04' :: s) = none
    rw [Json.parse?, lexed]
    rfl

namespace KeySet

/-- The public key of a key set is the compressed or the uncompressed form of a point that is not at
infinity. -/
theorem publicKey_cases (keys : KeySet) :
    ∃ Y : P256, Y ≠ 0 ∧ (keys.publicKey = Y.encoded ∨ keys.publicKey = Y.uncompressed) := by
  obtain ⟨Y, Y_ne, read⟩ := keys.exists_publicKey
  exact ⟨Y, Y_ne, Curve.eq_form_of_decode read⟩

/-- A public key that does not have the length of a bare key is no document either. -/
theorem ofBytes_publicKey {keys : KeySet} (long : keys.publicKey.length ≠ 33) :
    ofBytes keys.publicKey = Checked.fail .malformed := by
  obtain ⟨Y, Y_ne, compressed | uncompressed⟩ := keys.publicKey_cases
  · rw [compressed] at long
    exact absurd (Element.length_encoded Y_ne) long
  · obtain ⟨rest, split, -⟩ := Element.exists_uncompressed_eq Y_ne
    rw [uncompressed, split, ofBytes, Shape.document, Json.ofBytes?_of_uncompressed]

/-- Dealt key sets have the threshold that was asked for, and hold the public key in its compressed
form. -/
theorem spec_of_generate {parties threshold : ℤ} {draw : ℕ → ℕ} {keys : KeySet}
    {secrets : List SecretShare}
    (dealt : Threshold.generate parties threshold draw = .ok (keys, secrets)) :
    (keys.threshold : ℤ) = threshold ∧ keys.publicKey.length = 33 := by
  obtain ⟨positive, below⟩ := Threshold.bounds_of_generate dealt
  obtain ⟨keys', threshold_eq, commitments, generated⟩ :=
    Threshold.generate_eq_ok draw positive below
  obtain ⟨rfl, -⟩ := Prod.mk.inj (Except.ok.inj (generated.symm.trans dealt))
  refine ⟨threshold_eq, ?_⟩
  obtain ⟨rest, split, -⟩ := Threshold.coefficients_eq_cons threshold.toNat draw
  rw [publicKey, commitments, split, List.map_cons, List.headD_cons]
  exact Element.length_encoded (baseMultiple_ne_zero (Scalar.cast_ofDraw_ne_zero (draw 0)))

end KeySet

namespace Threshold

variable (keys : KeySet) (message : Bytes) (draws : Draws)

/-- Encrypting depends on a society key only through its public key. -/
theorem encrypt_congr {society society' : SocietyKey}
    (same : society.publicKey = society'.publicKey) :
    encrypt society message draws = encrypt society' message draws := by
  rw [encrypt, encrypt, same]

/-- Encrypting to a key set succeeds or finds a field that does not fit behind its length. -/
theorem encrypt_isOk_or_tooBig :
    (∃ c, encrypt (.set keys) message draws = .ok c) ∨
      encrypt (.set keys) message draws = .error .tooBig := by
  obtain ⟨Y, Y_ne, read⟩ := keys.exists_publicKey
  have publicKey : (SocietyKey.set keys).publicKey = .ok keys.publicKey := rfl
  have r_ne := Scalar.cast_ofDraw_ne_zero draws.ephemeral
  have U_ne := baseMultiple_ne_zero r_ne
  have R_ne := baseMultiple_ne_zero (Scalar.cast_ofDraw_ne_zero draws.proof)
  -- Everything before the challenge succeeds.
  simp only [encrypt, publicKey, read, mulBase_eq_baseMultiple, Curve.mul_eq_smul,
    Curve.compress_point U_ne, Curve.compress_point R_ne, Outcome.lift_ok, Outcome.bind_ok,
    payloadKey_eq_ok (smul_ne_zero r_ne Y_ne), Ciphertext.challengeFor]
  generalize Transcript.mk _ _ = transcript
  by_cases fits : transcript.Fits
  · obtain ⟨e, challenged⟩ := Transcript.challenge_of_fits fits
    rw [challenged]
    exact .inl ⟨_, rfl⟩
  · rw [Transcript.challenge_of_not_fits fits]
    exact .inr rfl

/-- Encrypting to the bare public key of a key set whose public key is not compressed fails on a
malformed document. -/
theorem encrypt_publicKey_eq_malformed (long : keys.publicKey.length ≠ 33) :
    encrypt (.bytes keys.publicKey) message draws = .error (.invalid [⟨[], .malformed⟩]) := by
  have publicKey : (SocietyKey.bytes keys.publicKey).publicKey =
      .error (.invalid [⟨[], .malformed⟩]) := by
    rw [SocietyKey.publicKey, if_neg long, KeySet.ofBytes_publicKey long]
    rfl
  rw [encrypt, publicKey, Outcome.bind_error]

/-- A key set and its published form give the same ciphertext, or the same failure. So does the bare
public key exactly when it is in the compressed form, and in the other form it is refused as a
malformed document. The published form of every key set that was read is read back, and dealt key
sets hold the compressed form. -/
theorem encrypt_to_forms :
    (keys.Fits → encrypt (.bytes keys.toBytes) message draws = encrypt (.set keys) message draws) ∧
    (encrypt (.bytes keys.publicKey) message draws = encrypt (.set keys) message draws ↔
      keys.publicKey.length = 33) ∧
    (keys.publicKey.length ≠ 33 → encrypt (.bytes keys.publicKey) message draws =
      .error (.invalid [⟨[], .malformed⟩])) ∧
    (∀ data, KeySet.ofBytes data = .ok keys → keys.Fits) ∧
    ∀ parties threshold draw secrets, generate parties threshold draw = .ok (keys, secrets) →
      keys.publicKey.length = 33 ∧
        ((Json.intText threshold).length ≤ 4300 → keys.Fits) := by
  refine ⟨?_, ⟨?_, ?_⟩, ?_, ?_, ?_⟩
  · intro fits
    exact encrypt_congr message draws (SocietyKey.publicKey_toBytes fits)
  · intro same
    by_contra long
    rw [encrypt_publicKey_eq_malformed keys message draws long] at same
    -- The key set itself never fails in this way.
    rcases encrypt_isOk_or_tooBig keys message draws with ⟨c, encrypted⟩ | encrypted
    · rw [encrypted] at same
      cases same
    · rw [encrypted] at same
      cases same
  · intro short
    have publicKey : (SocietyKey.bytes keys.publicKey).publicKey = .ok keys.publicKey := by
      rw [SocietyKey.publicKey, if_pos short]
    exact encrypt_congr message draws publicKey
  · exact encrypt_publicKey_eq_malformed keys message draws
  · intro data read
    exact KeySet.faithful.fits_of_document read
  · intro parties threshold draw secrets dealt
    obtain ⟨threshold_eq, length⟩ := KeySet.spec_of_generate dealt
    refine ⟨length, ?_⟩
    intro short
    rwa [KeySet.Fits, threshold_eq]

/-- A greeting to two holders is the same ciphertext in all three forms of their key. -/
theorem encrypt_greeting_to_forms :
    ∃ keys secrets c, generate 2 1 (fun _ => 0) = .ok (keys, secrets) ∧
      encrypt (.set keys) [104, 105] ⟨0, List.replicate 12 0, 0⟩ = .ok c ∧
      encrypt (.bytes keys.toBytes) [104, 105] ⟨0, List.replicate 12 0, 0⟩ = .ok c ∧
      encrypt (.bytes keys.publicKey) [104, 105] ⟨0, List.replicate 12 0, 0⟩ = .ok c := by
  obtain ⟨keys, -, -, dealt⟩ := generate_eq_ok (fun _ => 0) (by decide : (0 : ℤ) < 1) one_lt_two
  obtain ⟨published, bare, -, -, dealing⟩ :=
    encrypt_to_forms keys [104, 105] ⟨0, List.replicate 12 0, 0⟩
  obtain ⟨length, fits⟩ := dealing 2 1 (fun _ => 0) _ dealt
  obtain ⟨Y, Y_ne, read⟩ := keys.exists_publicKey
  have publicKey : (SocietyKey.set keys).publicKey = .ok keys.publicKey := rfl
  obtain ⟨c, -, -, encrypted, -⟩ := encrypt_eq_ok_of_read Y_ne publicKey read [104, 105]
    ⟨0, List.replicate 12 0, 0⟩ (by decide) (by decide)
  refine ⟨keys, _, c, dealt, encrypted, ?_, ?_⟩
  · rw [published (fits (by decide)), encrypted]
  · rw [bare.mpr length, encrypted]

/-- A key set may hold the base point uncompressed in the place of the public key. It is read back
from its published form, and either can be encrypted to, but the bare public key in it cannot. -/
theorem uncompressed_key_is_refused :
    ∃ keys : KeySet, keys.threshold = 1 ∧
      keys.commitments = [(Element.base : P256).uncompressed, (Element.base : P256).encoded] ∧
      KeySet.ofBytes keys.toBytes = .ok keys ∧
      ∃ c, encrypt (.set keys) [104, 105] ⟨0, List.replicate 12 0, 0⟩ = .ok c ∧
        encrypt (.bytes keys.toBytes) [104, 105] ⟨0, List.replicate 12 0, 0⟩ = .ok c ∧
        encrypt (.bytes keys.publicKey) [104, 105] ⟨0, List.replicate 12 0, 0⟩ =
          .error (.invalid [⟨[], .malformed⟩]) := by
  have base_ne : (Element.base : P256) ≠ 0 := Curve.Element.base_ne_zero
  have read : decodePoint (Element.base : P256).uncompressed = .ok (Element.base : P256).point :=
    Curve.decode_uncompressed base_ne
  have points : ∀ data ∈ [(Element.base : P256).uncompressed, (Element.base : P256).encoded],
      isPoint data = true := by
    simp only [List.forall_mem_cons, isPoint, read, decodePoint_encoded base_ne]
    exact ⟨rfl, rfl, by simp⟩
  let keys : KeySet :=
    ⟨1, [(Element.base : P256).uncompressed, (Element.base : P256).encoded], le_rfl, rfl, points⟩
  have fits : keys.Fits := by
    change (Json.intText 1).length ≤ 4300
    decide
  have publicKey : (SocietyKey.set keys).publicKey = .ok (Element.base : P256).uncompressed := rfl
  obtain ⟨c, -, -, encrypted, -⟩ := encrypt_eq_ok_of_read base_ne publicKey read [104, 105]
    ⟨0, List.replicate 12 0, 0⟩ (by decide) (by decide)
  have long : keys.publicKey.length ≠ 33 := by
    obtain ⟨rest, split, rest_length⟩ := Element.exists_uncompressed_eq base_ne
    change (Element.base : P256).uncompressed.length ≠ 33
    rw [split, List.length_cons, rest_length]
    decide
  refine ⟨keys, rfl, rfl, KeySet.ofBytes_toBytes fits, c, encrypted, ?_, ?_⟩
  · rw [encrypt_congr _ _ (SocietyKey.publicKey_toBytes fits), encrypted]
  · exact encrypt_publicKey_eq_malformed keys _ _ long

end Threshold

end Quorum
