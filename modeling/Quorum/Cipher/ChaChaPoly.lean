import Quorum.Cipher.ChaCha20

/-!
# ChaCha20-Poly1305

Authenticated encryption with the ChaCha20 keystream and the Poly1305 one-time authenticator. The
key of the authenticator is the start of the keystream block zero; the payload is masked from block
one on.

## Main definitions

* `Poly1305.tag` — the authenticator of a message under a one-time key
* `ChaChaPoly.encrypt` — masked payload and tag
* `ChaChaPoly.decrypt?` — the payload, if the tag is right
-/

namespace Quorum

namespace Poly1305

/-- The prime modulus of the authenticator. -/
def modulus : Nat := Nat.pow 2 130 - 5

/-- The evaluation point: the first half of the key with some bits cleared. -/
def point (key : Bytes) : Nat :=
  Bytes.toNatLE (key.take 16) &&& 0x0ffffffc0ffffffc0ffffffc0fffffff

/-- One block of the message, as a coefficient: a one is put behind its last byte. -/
def coefficient (block : Bytes) : Nat := Bytes.toNatLE (block ++ [1])

/-- The authenticator of sixteen bytes. -/
def tag (key message : Bytes) : Bytes :=
  let r := point key
  let sum := (Bytes.blocks 15 message).foldl
    (fun acc block => (acc + coefficient block) * r % modulus) 0
  Bytes.ofNatLE 16 (sum + Bytes.toNatLE (key.drop 16))

end Poly1305

namespace ChaChaPoly

/-- What is authenticated: associated data and masked payload, each filled up with zeros to whole
blocks, and their lengths. -/
def transcript (associated masked : Bytes) : Bytes :=
  Bytes.padTo 16 associated ++ Bytes.padTo 16 masked ++
    Bytes.ofNatLE 8 associated.length ++ Bytes.ofNatLE 8 masked.length

/-- The tag for associated data and a masked payload. -/
def tag (key nonce associated masked : Bytes) : Bytes :=
  Poly1305.tag ((ChaCha20.block key nonce 0).take 32) (transcript associated masked)

/-- Masks a payload, or unmasks it. -/
def mask (key nonce payload : Bytes) : Bytes :=
  Bytes.xor payload (ChaCha20.keystream key nonce 1 payload.length)

/-- The masked payload followed by its tag. Implementations refuse payloads of `2 ^ 31` bytes or
more, so that a promise that something is sealed leaves these out. -/
def encrypt (key nonce associated payload : Bytes) : Bytes :=
  let masked := mask key nonce payload
  masked ++ tag key nonce associated masked

/-- The payload of a sealed byte string, if its tag is right. -/
def decrypt? (key nonce associated sealed : Bytes) : Option Bytes :=
  if sealed.length < 16 then none
  else
    let masked := sealed.take (sealed.length - 16)
    if sealed.drop (sealed.length - 16) = tag key nonce associated masked then
      some (mask key nonce masked)
    else none

end ChaChaPoly

end Quorum
