import Quorum.Proofs.Channel.Seal

/-!
# A channel opens exactly what it seals

The nonce stands in front of the sealed payload, so a blob names the one nonce that it can have been
sealed under, and the tag then leaves one blob for every payload. Opening is therefore sealing read
backwards: no blob is opened that sealing does not give, and whatever is wrong with a blob, a key or
the public key of a sender, the answer is the same rejection.

## Main results

* `Wire.unlock_eq_ok_iff` — the blobs that are opened under a key
* `Wire.unlock_isOk_or_rejected` — all others are rejected
* `openSealed_eq_ok_iff` — the messages that a recipient opens
* `Channel.opens_exactly_what_it_seals` — both, with the rejection of everything else
-/

namespace Quorum

namespace Wire

variable {key nonce payload blob : Bytes}

/-- Sealing needs a key of 32 bytes and puts the nonce in front. -/
theorem lock_eq_ok_iff : lock key nonce payload = .ok blob ↔
    key.length = 32 ∧ nonce ++ ChaChaPoly.encrypt key nonce [] payload = blob := by
  unfold lock
  split
  · next other =>
    constructor
    · intro locked
      cases locked
    · rintro ⟨same, -⟩
      exact absurd same other
  · next same => simp [not_not.mp same]

/-- A blob is opened to a payload exactly when its first twelve bytes are a nonce under which the
payload is sealed to the blob. -/
theorem unlock_eq_ok_iff : unlock key blob = .ok payload ↔
    key.length = 32 ∧ 28 ≤ blob.length ∧ lock key (blob.take 12) payload = .ok blob := by
  rw [lock_eq_ok_iff]
  -- Behind the nonce stands what the cipher makes of the payload.
  have behind : blob.take 12 ++ ChaChaPoly.encrypt key (blob.take 12) [] payload = blob ↔
      blob.drop 12 = ChaChaPoly.encrypt key (blob.take 12) [] payload := by
    nth_rewrite 3 [← List.take_append_drop 12 blob]
    rw [List.append_cancel_left_eq, eq_comm]
  rw [behind, ← ChaChaPoly.decrypt?_eq_some_iff]
  unfold unlock
  split
  · next malformed =>
    constructor
    · intro opened
      cases opened
    · rintro ⟨key_length, long, -⟩
      omega
  · next wellFormed =>
    push Not at wellFormed
    cases ChaChaPoly.decrypt? key (blob.take 12) [] (blob.drop 12) with
    | some other => simp [wellFormed]
    | none => simp

/-- A blob that is not opened is rejected. -/
theorem unlock_isOk_or_rejected (key blob : Bytes) :
    (∃ payload, unlock key blob = .ok payload) ∨ unlock key blob = .error .rejectedMessage := by
  unfold unlock
  split
  · exact .inr rfl
  · cases ChaChaPoly.decrypt? key (blob.take 12) [] (blob.drop 12) with
    | some payload => exact .inl ⟨payload, rfl⟩
    | none => exact .inr rfl

end Wire

variable {message : SealedMessage} {recipient : KeyPair} {derivation : Derivation}

/-- A message is opened to a payload exactly when the recipient has a channel to the sender in which
the payload is sealed to the blob. -/
theorem openSealed_eq_ok_iff {payload : Bytes} :
    openSealed message recipient derivation = .ok payload ↔
      ∃ channel, Channel.establish recipient message.sender derivation = .ok channel ∧
        28 ≤ message.blob.length ∧
        channel.lock (message.blob.take 12) payload = .ok message.blob := by
  unfold openSealed
  cases Channel.establish recipient message.sender derivation with
  | error cause => simp
  | ok channel =>
    simp only [Channel.unlock, Wire.unlock_eq_ok_iff, Channel.lock, Except.ok.injEq,
      exists_eq_left']
    -- A channel that seals has a key of the right length.
    constructor
    · rintro ⟨-, long, locked⟩
      exact ⟨long, locked⟩
    · rintro ⟨long, locked⟩
      exact ⟨(Wire.lock_eq_ok_iff.mp locked).1, long, locked⟩

/-- A message that is not opened is rejected. -/
theorem openSealed_isOk_or_rejected (message : SealedMessage) (recipient : KeyPair)
    (derivation : Derivation) :
    (∃ payload, openSealed message recipient derivation = .ok payload) ∨
      openSealed message recipient derivation = .error .rejectedMessage := by
  unfold openSealed
  cases Channel.establish recipient message.sender derivation with
  | error cause => exact .inr rfl
  | ok channel => exact Wire.unlock_isOk_or_rejected channel.key message.blob

/-- Under any key a blob is opened to a payload exactly when the key has 32 bytes, the blob has at
least 28, and the payload is sealed to the blob under its first twelve bytes as the nonce. A message
is opened exactly when the recipient can establish a channel to its sender and the blob comes out of
sealing in that channel. Everything else is rejected, and in one way. -/
theorem Channel.opens_exactly_what_it_seals :
    (∀ key blob : Bytes,
      (∀ payload, Wire.unlock key blob = .ok payload ↔
        key.length = 32 ∧ 28 ≤ blob.length ∧
          Wire.lock key (blob.take 12) payload = .ok blob) ∧
      ((∃ payload, Wire.unlock key blob = .ok payload) ∨
        Wire.unlock key blob = .error .rejectedMessage)) ∧
    ∀ (message : SealedMessage) (recipient : KeyPair) (derivation : Derivation),
      (∀ payload, openSealed message recipient derivation = .ok payload ↔
        ∃ channel, Channel.establish recipient message.sender derivation = .ok channel ∧
          28 ≤ message.blob.length ∧
          channel.lock (message.blob.take 12) payload = .ok message.blob) ∧
      ((∃ payload, openSealed message recipient derivation = .ok payload) ∨
        openSealed message recipient derivation = .error .rejectedMessage) := by
  constructor
  · intro key blob
    exact ⟨fun payload => Wire.unlock_eq_ok_iff, Wire.unlock_isOk_or_rejected key blob⟩
  · intro message recipient derivation
    exact ⟨fun payload => openSealed_eq_ok_iff,
      openSealed_isOk_or_rejected message recipient derivation⟩

end Quorum
