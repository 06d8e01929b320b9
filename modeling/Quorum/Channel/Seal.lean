import Quorum.Channel.KeyPair
import Quorum.Cipher.ChaChaPoly
import Quorum.Hash.Hkdf
import Quorum.Threshold.KeySet

/-!
# Sealing for one recipient

A channel seals payloads under a key derived from a key agreement. On the wire a sealed payload is
the nonce followed by the masked payload and its tag. Whatever is wrong with a received payload,
its opening fails in one and the same way.

## Main definitions

* `Derivation` — how the shared secret becomes a key
* `Wire.lock`, `Wire.unlock` — sealing and opening under a key
* `Channel` — a key agreed between a key pair and a peer
* `SealedMessage` — a sealed payload with the sender's public key
* `sealFor`, `openSealed` — sealing for a recipient and opening as the recipient
-/

namespace Quorum

/-- How a shared secret becomes a key. -/
inductive Derivation where
  /-- The secret is the key. -/
  | raw
  /-- The key is derived from the secret. -/
  | hkdf
deriving DecidableEq, Repr, Inhabited

namespace Derivation

/-- The name under which a derivation is configured. -/
def name : Derivation → String
  | raw => "raw"
  | hkdf => "hkdf-sha256"

/-- The names in the order in which they are listed. -/
def all : List Derivation := [raw, hkdf]

/-- The derivation with a given name. -/
def ofName? (s : String) : Option Derivation := all.find? fun d => d.name == s

/-- The key for a shared secret. -/
def key : Derivation → Bytes → Bytes
  | raw, secret => secret
  | hkdf, secret => Quorum.hkdf [] secret (Bytes.ascii "conclave/secure-channel")

end Derivation

namespace Wire

/-- The nonce, and the payload sealed under the key. -/
def lock (key nonce payload : Bytes) : Except BadValue Bytes :=
  if key.length ≠ 32 then .error .channelKey
  else .ok (nonce ++ ChaChaPoly.encrypt key nonce [] payload)

/-- The payload of a nonce and a sealed payload. -/
def unlock (key blob : Bytes) : Outcome Bytes :=
  if blob.length < 28 ∨ key.length ≠ 32 then .error .rejectedMessage
  else
    match ChaChaPoly.decrypt? key (blob.take 12) [] (blob.drop 12) with
    | some payload => .ok payload
    | none => .error .rejectedMessage

end Wire

/-- A key agreed between a key pair and a peer. -/
structure Channel where
  /-- The agreed key. -/
  key : Bytes
  /-- The peer's public key, as it was given. -/
  peer : Bytes
deriving DecidableEq

namespace Channel

/-- The channel from a key pair to a peer. -/
def establish (mine : KeyPair) (peer : Bytes) (derivation : Derivation) :
    Except BadValue Channel :=
  match mine.agree peer with
  | .ok secret => .ok ⟨derivation.key secret, peer⟩
  | .error _ => .error .peerKey

/-- Seals a payload under a nonce. -/
def lock (c : Channel) (nonce payload : Bytes) : Except BadValue Bytes :=
  Wire.lock c.key nonce payload

/-- Opens what the other side sealed. -/
def unlock (c : Channel) (blob : Bytes) : Outcome Bytes := Wire.unlock c.key blob

end Channel

/-- A sealed payload with the public key of its sender. -/
structure SealedMessage where
  /-- The sender's public key. -/
  sender : Bytes
  /-- The nonce and the sealed payload. -/
  blob : Bytes
deriving DecidableEq

namespace SealedMessage

/-- The written form. -/
def toJson (m : SealedMessage) : Json :=
  .obj [("sender_public_key", KeySet.jsonBytes m.sender), ("blob", KeySet.jsonBytes m.blob)]

/-- Reads the written form. -/
def ofJson : Json → Checked SealedMessage :=
  Shape.record fun v => do
    let (sender, blob) ← (Shape.required "sender_public_key" Shape.bytes v).and
      (Shape.required "blob" Shape.bytes v)
    .ok ⟨sender, blob⟩

/-- The written form as bytes. -/
def toBytes (m : SealedMessage) : Bytes := Utf8.encode m.toJson.compact

/-- Reads the written form from bytes. -/
def ofBytes (data : Bytes) : Checked SealedMessage := Shape.document ofJson data

end SealedMessage

/-- Seals a payload so that only the holder of the recipient's key can open it. -/
def sealFor (recipient : Bytes) (payload : Bytes) (sender : KeyPair) (derivation : Derivation)
    (nonce : Bytes) : Except BadValue SealedMessage := do
  let channel ← Channel.establish sender recipient derivation
  let blob ← channel.lock nonce payload
  .ok ⟨sender.publicBytes, blob⟩

/-- Opens a message addressed to the recipient. -/
def openSealed (message : SealedMessage) (recipient : KeyPair) (derivation : Derivation) :
    Outcome Bytes :=
  match Channel.establish recipient message.sender derivation with
  | .ok channel => channel.unlock message.blob
  | .error _ => .error .rejectedMessage

end Quorum
