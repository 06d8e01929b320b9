import Quorum.Cipher.ChaChaPoly
import Quorum.Proofs.Cipher.Gcm

/-!
# What ChaCha20-Poly1305 seals is opened again

Keystream blocks have 64 bytes, so the keystream is as long as the payload or longer, and tags have
sixteen bytes. Masking twice gives the payload back. The tag leaves no choice either: a byte string
that opens is the one that sealing its payload gives.

## Main results

* `ChaChaPoly.length_encrypt` — a sealed payload is sixteen bytes longer
* `ChaChaPoly.decrypt?_encrypt` — opening what was sealed gives the payload
* `ChaChaPoly.decrypt?_eq_some_iff` — nothing else is opened
-/

namespace Quorum

@[simp] theorem Bytes.length_ofNatLE (width n : ℕ) : (ofNatLE width n).length = width := by
  induction width generalizing n with
  | zero => rfl
  | succ width ih => rw [ofNatLE, List.length_cons, ih]

namespace ChaCha20

variable (key nonce : Bytes)

theorem length_block (counter : ℕ) : (block key nonce counter).length = 64 := by
  simp [block, State.words, Row.words]

/-- The keystream covers what it masks. -/
theorem le_length_keystream (counter length : ℕ) :
    length ≤ (keystream key nonce counter length).length := by
  have blocks : (keystream key nonce counter length).length = (length + 63) / 64 * 64 := by
    simp [keystream, List.length_flatMap, length_block]
  omega

end ChaCha20

namespace ChaChaPoly

variable (key nonce associated payload : Bytes)

@[simp] theorem length_mask : (mask key nonce payload).length = payload.length := by
  rw [mask, Bytes.length_xor, Nat.min_eq_left (ChaCha20.le_length_keystream ..)]

theorem mask_mask : mask key nonce (mask key nonce payload) = payload := by
  rw [mask, length_mask, mask, Bytes.xor_xor_cancel (ChaCha20.le_length_keystream ..)]

@[simp] theorem length_tag : (tag key nonce associated payload).length = 16 :=
  Bytes.length_ofNatLE ..

/-- A sealed payload is sixteen bytes longer than the payload. -/
theorem length_encrypt : (encrypt key nonce associated payload).length = payload.length + 16 := by
  simp [encrypt]

/-- Opening what was sealed gives the payload. -/
theorem decrypt?_encrypt :
    decrypt? key nonce associated (encrypt key nonce associated payload) = some payload := by
  have long : ¬payload.length + 16 < 16 := by omega
  have before : payload.length + 16 - 16 = (mask key nonce payload).length := by simp
  rw [decrypt?, length_encrypt, if_neg long, before]
  simp only [encrypt, List.take_left, List.drop_left, if_true, mask_mask]

/-- What is opened is what sealing the payload gives. -/
theorem eq_encrypt_of_decrypt? {key nonce associated payload sealed : Bytes}
    (opened : decrypt? key nonce associated sealed = some payload) :
    sealed = encrypt key nonce associated payload := by
  simp only [decrypt?] at opened
  split at opened
  · cases opened
  · split at opened
    · next same =>
      cases opened
      -- Masking the payload again gives the masked part, and the tag was compared with its own.
      rw [encrypt, mask_mask, ← same]
      exact (List.take_append_drop _ sealed).symm
    · cases opened

/-- A byte string is opened to a payload exactly when it is what sealing the payload gives. -/
theorem decrypt?_eq_some_iff {key nonce associated payload sealed : Bytes} :
    decrypt? key nonce associated sealed = some payload ↔
      sealed = encrypt key nonce associated payload := by
  constructor
  · intro opened
    exact eq_encrypt_of_decrypt? opened
  · rintro rfl
    exact decrypt?_encrypt key nonce associated payload

end ChaChaPoly

end Quorum
