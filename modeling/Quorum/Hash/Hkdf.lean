import Quorum.Hash.Sha2

/-!
# Keyed hashing and key derivation

HMAC over SHA-256, and the derivation of keys from shared secrets built on it: the secret is first
extracted under a salt and then expanded for a purpose.

## Main definitions

* `hmac` — the keyed hash
* `hkdf` — a 32-byte key for a purpose from a secret and a salt

## Main results

* `length_hkdf` — derived keys have 32 bytes
-/

namespace Quorum

/-- A key filled up to one block; longer keys are hashed first. -/
def hmacKey (key : Bytes) : Bytes :=
  let k := if 64 < key.length then sha256 key else key
  k ++ List.replicate (64 - k.length) 0

/-- The keyed hash of a message. -/
def hmac (key message : Bytes) : Bytes :=
  let k := hmacKey key
  sha256 (k.map (· ^^^ 0x5c) ++ sha256 (k.map (· ^^^ 0x36) ++ message))

/-- The key of 32 bytes that a secret and a salt give for a purpose. One expansion step is enough
for this length. -/
def hkdf (salt secret purpose : Bytes) : Bytes :=
  hmac (hmac salt secret) (purpose ++ [1])

@[simp] theorem length_hmac (key message : Bytes) : (hmac key message).length = 32 := by
  simp [hmac]

@[simp] theorem length_hkdf (salt secret purpose : Bytes) :
    (hkdf salt secret purpose).length = 32 := by
  simp [hkdf]

end Quorum
