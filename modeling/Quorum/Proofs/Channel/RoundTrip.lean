import Quorum.Proofs.Channel.Seal

/-!
# Either side of a channel opens what the other seals

Two key pairs on one curve agree on a secret, whichever form of each other's public key they are
given, so the channels that they establish have the same key. What is sealed in one of them is
opened in the other, and a message for a recipient is still opened after it has been written and
read.

## Main definitions

* `KeyForm` — the forms of a public key
* `KeyPair.encoded` — the public key of a pair in a given form

## Main results

* `KeyPair.Sound.exists_encoded` — either form of the public key is read as the point of the pair
* `Channel.exists_establish` — both sides establish channels with one key
* `Channel.agrees_and_opens` — both sides agree, and either opens what the other seals
-/

namespace Quorum

/-- The forms of a public key. -/
inductive KeyForm where
  /-- The abscissa with the parity of the ordinate. -/
  | compressed
  /-- Both coordinates. -/
  | uncompressed

namespace KeyPair

variable {k l : KeyPair}

/-- The public key of a pair in a given form. -/
def encoded (k : KeyPair) : KeyForm → Outcome Bytes
  | .compressed => Curve.compress k.point
  | .uncompressed => .ok k.publicBytes

/-- The public key has either form, and either is read as the point of the pair. -/
theorem Sound.exists_encoded (sound : k.Sound) (form : KeyForm) :
    ∃ data, k.encoded form = .ok data ∧ k.curve.curve.decode data = .ok k.point := by
  cases form with
  | compressed =>
    refine ⟨k.element.encoded, ?_, ?_⟩
    · rw [encoded, sound.point, Curve.compress_point sound.element_ne]
    · rw [Curve.decode_encoded sound.element_ne, sound.point]
  | uncompressed => exact ⟨k.publicBytes, rfl, sound.decode_publicBytes⟩

/-- A pair is made of every secret between zero and the order of the curve. -/
theorem exists_ofSecret (c : ChannelCurve) {secret : ℤ} (positive : 0 < secret)
    (below : secret < c.curve.order) : ∃ k, ofSecret c secret = .ok k ∧ k.Sound ∧ k.curve = c := by
  let k : KeyPair := ⟨c, secret, (element ⟨c, secret, .infinity⟩).point⟩
  have sound : k.Sound := ⟨positive, below, rfl⟩
  exact ⟨k, ofSecret_eq_ok_iff.mpr ⟨sound, rfl, rfl⟩, sound, rfl⟩

end KeyPair

namespace Channel

/-- Both sides establish channels with one key of 32 bytes from a secret that they agree on. -/
theorem exists_establish {k l : KeyPair} {ks ls secret : Bytes}
    (forward : k.agree ls = .ok secret) (backward : l.agree ks = .ok secret)
    (length : secret.length = 32) (derivation : Derivation) :
    ∃ key, key.length = 32 ∧ establish k ls derivation = .ok ⟨key, ls⟩ ∧
      establish l ks derivation = .ok ⟨key, ks⟩ :=
  ⟨derivation.key secret, derivation.length_key length, by rw [establish, forward],
    by rw [establish, backward]⟩

/-- Two pairs on either curve agree on one secret of 32 bytes, whichever form of each other's public
key they are given. What one seals in its channel the other opens, and a message from one for the
other is opened, also after it has been written and read. -/
theorem agrees_and_opens (c : ChannelCurve) {a b : ℤ} (a_pos : 0 < a) (a_lt : a < c.curve.order)
    (b_pos : 0 < b) (b_lt : b < c.curve.order) :
    ∃ k l, KeyPair.ofSecret c a = .ok k ∧ KeyPair.ofSecret c b = .ok l ∧
      ∀ form form' : KeyForm, ∃ ks ls secret,
        k.encoded form = .ok ks ∧ l.encoded form' = .ok ls ∧
        k.agree ls = .ok secret ∧ l.agree ks = .ok secret ∧ secret.length = 32 ∧
        ∀ (derivation : Derivation) (payload nonce : Bytes), nonce.length = 12 →
          (∃ there back blob, establish k ls derivation = .ok there ∧
            establish l ks derivation = .ok back ∧ there.lock nonce payload = .ok blob ∧
            back.unlock blob = .ok payload) ∧
          ∃ m, sealFor ls payload k derivation nonce = .ok m ∧
            openSealed m l derivation = .ok payload ∧
            (do
              let received ← (SealedMessage.ofBytes m.toBytes).outcome
              openSealed received l derivation) = .ok payload := by
  obtain ⟨k, k_made, k_sound, k_curve⟩ := KeyPair.exists_ofSecret c a_pos a_lt
  obtain ⟨l, l_made, l_sound, l_curve⟩ := KeyPair.exists_ofSecret c b_pos b_lt
  have same : k.curve = l.curve := k_curve.trans l_curve.symm
  refine ⟨k, l, k_made, l_made, fun form form' => ?_⟩
  obtain ⟨ks, ks_encoded, ks_read⟩ := k_sound.exists_encoded form
  obtain ⟨ls, ls_encoded, ls_read⟩ := l_sound.exists_encoded form'
  obtain ⟨secret, forward, backward, length⟩ := k_sound.agree l_sound same ks_read ls_read
  refine ⟨ks, ls, secret, ks_encoded, ls_encoded, forward, backward, length,
    fun derivation payload nonce nonce_length => ⟨?_, ?_⟩⟩
  · obtain ⟨key, key_length, there, back⟩ := exists_establish forward backward length derivation
    obtain ⟨blob, locked, unlocked⟩ := Wire.unlock_lock key_length nonce_length payload
    exact ⟨_, _, blob, there, back, locked, unlocked⟩
  · obtain ⟨m, sealed, opened⟩ :=
      openSealed_sealFor k_sound l_sound same ls_read derivation nonce_length payload
    refine ⟨m, sealed, opened, ?_⟩
    rw [m.ofBytes_toBytes]
    exact opened

/-- Two small secrets on the Koblitz curve, of which one key is given in compressed form. -/
theorem agrees_and_opens_small_secrets : ∃ k l ks secret m,
    KeyPair.ofSecret .k256 2 = .ok k ∧ KeyPair.ofSecret .k256 3 = .ok l ∧
      Curve.compress k.point = .ok ks ∧ k.agree l.publicBytes = .ok secret ∧
      l.agree ks = .ok secret ∧
      sealFor l.publicBytes [104, 105] k .hkdf (List.replicate 12 0) = .ok m ∧
      openSealed m l .hkdf = .ok [104, 105] := by
  obtain ⟨k, l, k_made, l_made, forms⟩ :=
    agrees_and_opens .k256 (by decide : (0 : ℤ) < 2) (by decide) (by decide : (0 : ℤ) < 3)
      (by decide)
  obtain ⟨ks, ls, secret, ks_encoded, ls_encoded, forward, backward, -, sends⟩ :=
    forms .compressed .uncompressed
  obtain rfl : l.publicBytes = ls := Except.ok.inj ls_encoded
  obtain ⟨-, m, sealed, opened, -⟩ := sends .hkdf [104, 105] (List.replicate 12 0) (by decide)
  exact ⟨k, l, ks, secret, m, k_made, l_made, ks_encoded, forward, backward, sealed, opened⟩

end Channel

end Quorum
