import Quorum.Cipher.Aes

/-!
# Galois/Counter Mode

Authenticated encryption with AES: the payload is masked with a keystream of encrypted counters,
and a tag is computed from the associated data and the masked payload in the field of `2 ^ 128`
elements.

## Main definitions

* `Gcm.ghash` — the polynomial hash that authenticates
* `Gcm.keystream` — the mask for a payload
* `Gcm.encrypt` — masked payload and tag
* `Gcm.decrypt?` — the payload, if the tag is right
* `Gcm.nonceFits` — the nonce lengths that are taken
-/

namespace Quorum

namespace Gcm

/-- Multiplication by the generator, where bit `127 - i` is the coefficient of the `i`-th power. -/
def shift (v : Nat) : Nat := if v % 2 = 0 then v / 2 else (v / 2) ^^^ (0xe1 <<< 120)

/-- The sum of `v` times the lowest `bits` powers of `x`, added to `z`. -/
def mulBits : (bits : Nat) → (x v z : Nat) → Nat
  | 0, _, _, z => z
  | bits + 1, x, v, z =>
    mulBits bits x (shift v) (if x.testBit bits then z ^^^ v else z)

/-- The product of two field elements. -/
def mul (x y : Nat) : Nat := mulBits 128 x y 0

/-- The hash of a whole number of blocks under the key `h`. -/
def ghash (h : Nat) (data : Bytes) : Nat :=
  (Bytes.blocks 15 data).foldl (fun y block => mul (y ^^^ Bytes.toNat block) h) 0

/-- The lengths in bits of two byte strings, as one block. -/
def lengthBlock (a b : Bytes) : Bytes :=
  Bytes.ofNat 8 (8 * a.length) ++ Bytes.ofNat 8 (8 * b.length)

/-- The nonce lengths that are taken, in bytes. -/
def nonceFits (nonce : Bytes) : Bool := 8 ≤ nonce.length && nonce.length ≤ 128

/-- The first counter: a nonce of twelve bytes followed by the number one, and the hash of any
other nonce. -/
def firstCounter (h : Nat) (nonce : Bytes) : Nat :=
  if nonce.length = 12 then Bytes.toNat nonce * Nat.pow 2 32 + 1
  -- Other nonces are hashed like a masked payload without associated data.
  else ghash h (Bytes.padTo 16 nonce ++ lengthBlock [] nonce)

/-- The counter `i` steps later; only its last 32 bits count on. -/
def counterAt (first i : Nat) : Nat :=
  first / Nat.pow 2 32 * Nat.pow 2 32 + (first + i) % Nat.pow 2 32

/-- The encryption of a counter. -/
def maskBlock (keys : List Bytes) (counter : Nat) : Bytes :=
  Aes.encryptBlock keys (Bytes.ofNat 16 counter)

/-- The mask for a payload of `length` bytes. -/
def keystream (keys : List Bytes) (first length : Nat) : Bytes :=
  (List.range ((length + 15) / 16)).flatMap fun i => maskBlock keys (counterAt first (i + 1))

/-- The tag of sixteen bytes for associated data and a masked payload. -/
def tag (keys : List Bytes) (h first : Nat) (associated masked : Bytes) : Bytes :=
  let hash := ghash h (Bytes.padTo 16 associated ++ Bytes.padTo 16 masked ++
    lengthBlock associated masked)
  Bytes.xor (Bytes.ofNat 16 hash) (maskBlock keys first)

/-- The key of the polynomial hash: the encryption of zero. -/
def hashKey (keys : List Bytes) : Nat := Bytes.toNat (maskBlock keys 0)

/-- The masked payload followed by its tag. Implementations refuse payloads of `2 ^ 31` bytes or
more, so that a promise that something is sealed leaves these out. -/
def encrypt (key nonce associated payload : Bytes) : Bytes :=
  let keys := Aes.expandKey key
  let h := hashKey keys
  let first := firstCounter h nonce
  let masked := Bytes.xor payload (keystream keys first payload.length)
  masked ++ tag keys h first associated masked

/-- The payload of a sealed byte string, if its tag is right and the nonce is one that is taken. -/
def decrypt? (key nonce associated sealed : Bytes) : Option Bytes :=
  if !nonceFits nonce || sealed.length < 16 then none
  else
    let keys := Aes.expandKey key
    let h := hashKey keys
    let first := firstCounter h nonce
    let masked := sealed.take (sealed.length - 16)
    -- Nothing of the payload is shown before the tag has been compared.
    if sealed.drop (sealed.length - 16) = tag keys h first associated masked then
      some (Bytes.xor masked (keystream keys first masked.length))
    else none

end Gcm

end Quorum
