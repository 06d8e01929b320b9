import Quorum.Channel.Seal
import Quorum.Proofs.Channel.KeyPair
import Quorum.Proofs.Cipher.ChaChaPoly
import Quorum.Proofs.Shape

/-!
# A message for a recipient is opened by the recipient

The sender and the recipient agree on one secret and derive the same key from it. A sealed payload
is opened under its key, because the nonce has a fixed length and is split off again. The message
survives being written and read.

## Main results

* `Wire.unlock_lock` — a payload sealed under a key is opened under it
* `SealedMessage.ofBytes_toBytes` — a message is read back from the bytes it is written to
* `openSealed_sealFor` — a message is opened by its recipient
-/

namespace Quorum

theorem Derivation.length_key (d : Derivation) {secret : Bytes} (length : secret.length = 32) :
    (d.key secret).length = 32 := by
  cases d with
  | raw => exact length
  | hkdf => exact length_hkdf ..

/-- A payload sealed under a key is opened under it. -/
theorem Wire.unlock_lock {key nonce : Bytes} (key_length : key.length = 32)
    (nonce_length : nonce.length = 12) (payload : Bytes) :
    ∃ blob, lock key nonce payload = .ok blob ∧ unlock key blob = .ok payload := by
  refine ⟨_, if_neg (not_not.mpr key_length), ?_⟩
  have sealed := ChaChaPoly.length_encrypt key nonce [] payload
  have long : ¬((nonce ++ ChaChaPoly.encrypt key nonce [] payload).length < 28 ∨
      key.length ≠ 32) := by
    rw [List.length_append]
    omega
  rw [unlock, if_neg long, ← nonce_length, List.take_left, List.drop_left,
    ChaChaPoly.decrypt?_encrypt]

namespace SealedMessage

variable (m : SealedMessage)

theorem legible_toJson (room : ℕ) : m.toJson.Legible (room + 1) := by
  refine .obj fun f member => ?_
  simp only [List.mem_cons, List.not_mem_nil, or_false] at member
  obtain rfl | rfl := member <;> exact .str _

/-- A message is read back from what is written for it. -/
theorem ofJson_toJson : ofJson m.toJson = .ok m := by
  have sender : Shape.required "sender_public_key" Shape.bytes m.toJson = .ok m.sender :=
    Shape.required_eq_ok rfl (Shape.bytes_encode m.sender)
  have blob : Shape.required "blob" Shape.bytes m.toJson = .ok m.blob :=
    Shape.required_eq_ok rfl (Shape.bytes_encode m.blob)
  change ((Shape.required "sender_public_key" Shape.bytes m.toJson).and
    (Shape.required "blob" Shape.bytes m.toJson) >>= fun x => .ok ⟨x.1, x.2⟩) = .ok m
  rw [sender, blob]
  rfl

/-- A message is read back from the bytes it is written to. -/
theorem ofBytes_toBytes : ofBytes m.toBytes = .ok m := by
  rw [ofBytes, toBytes, Shape.document_encode (m.legible_toJson 199), ofJson_toJson]

end SealedMessage

/-- A message for a recipient is opened by the recipient, in whatever form the sender was given the
recipient's public key. -/
theorem openSealed_sealFor {sender recipient : KeyPair} (sender_sound : sender.Sound)
    (recipient_sound : recipient.Sound) (same : sender.curve = recipient.curve) {key : Bytes}
    (read : recipient.curve.curve.decode key = .ok recipient.point) (derivation : Derivation)
    {nonce : Bytes} (nonce_length : nonce.length = 12) (payload : Bytes) :
    ∃ m, sealFor key payload sender derivation nonce = .ok m ∧
      openSealed m recipient derivation = .ok payload := by
  obtain ⟨secret, forward, backward, length⟩ :=
    sender_sound.agree recipient_sound same sender_sound.decode_publicBytes read
  obtain ⟨blob, locked, unlocked⟩ :=
    Wire.unlock_lock (derivation.length_key length) nonce_length payload
  refine ⟨⟨sender.publicBytes, blob⟩, ?_, ?_⟩
  · rw [sealFor, Channel.establish, forward, Outcome.bind_ok, Channel.lock, locked]
    rfl
  · rw [openSealed, Channel.establish, backward]
    exact unlocked

end Quorum
