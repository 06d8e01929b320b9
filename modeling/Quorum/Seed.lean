import Quorum.Hash.Sha2

/-!
# Draws from a seed

All random numbers of a run come from one secret seed: each is the hash of the seed with a label and
a number of its own.

## Main definitions

* `Seed.draw` — the drawn numbers
* `Seed.nonce` — the drawn nonces
-/

namespace Quorum

namespace Seed

/-- The block with a label and a number. -/
def block (seed : Bytes) (label : UInt8) (i : Nat) : Bytes :=
  sha512 (seed ++ label :: Bytes.ofNat 8 i)

/-- The drawn numbers. -/
def draw (seed : Bytes) (i : Nat) : Nat := Bytes.toNat (block seed 0 i)

/-- The drawn nonces of twelve bytes. -/
def nonce (seed : Bytes) (i : Nat) : Bytes := (block seed 1 i).take 12

end Seed

end Quorum
