import Quorum.Bytes

/-!
# SHA-2

The hash functions SHA-256 and SHA-512. Both run the same compression over words of different
width, so the width is a parameter and the two functions are two sets of constants.

## Main definitions

* `Sha2` — the constants of a member of the family over words of `w` bits
* `Sha2.pad` — a message with its padding, a whole number of blocks
* `Sha2.compress` — one block folded into the chaining state
* `Sha2.digest` — the hash of a message; `sha256` and `sha512` are its two instances

## Main results

* `length_sha256`, `length_sha512` — the lengths of the digests
-/

namespace Quorum

/-- The chaining state: eight words. -/
structure Sha2.State (w : Nat) where
  /-- The first word. -/
  a : BitVec w
  /-- The second word. -/
  b : BitVec w
  /-- The third word. -/
  c : BitVec w
  /-- The fourth word. -/
  d : BitVec w
  /-- The fifth word. -/
  e : BitVec w
  /-- The sixth word. -/
  f : BitVec w
  /-- The seventh word. -/
  g : BitVec w
  /-- The eighth word. -/
  h : BitVec w

/-- A member of the family over words of `w` bits. -/
structure Sha2 (w : Nat) where
  /-- The rotations that mix the first word of the state. -/
  upper₀ : Nat × Nat × Nat
  /-- The rotations that mix the fifth word of the state. -/
  upper₁ : Nat × Nat × Nat
  /-- Two rotations and a shift that mix the word fifteen places back in the schedule. -/
  lower₀ : Nat × Nat × Nat
  /-- Two rotations and a shift that mix the word two places back in the schedule. -/
  lower₁ : Nat × Nat × Nat
  /-- One constant a round. -/
  constants : List (BitVec w)
  /-- The state before the first block. -/
  initial : Sha2.State w

namespace Sha2

variable {w : Nat}

/-- The exclusive or of three rotations of a word. -/
def mix (r : Nat × Nat × Nat) (x : BitVec w) : BitVec w :=
  x.rotateRight r.1 ^^^ x.rotateRight r.2.1 ^^^ x.rotateRight r.2.2

/-- The exclusive or of two rotations and a shift of a word. -/
def mixShift (r : Nat × Nat × Nat) (x : BitVec w) : BitVec w :=
  x.rotateRight r.1 ^^^ x.rotateRight r.2.1 ^^^ (x >>> r.2.2)

/-- Bitwise choice between `y` and `z`. -/
def choose (x y z : BitVec w) : BitVec w := (x &&& y) ^^^ (~~~x &&& z)

/-- Bitwise majority. -/
def majority (x y z : BitVec w) : BitVec w := (x &&& y) ^^^ (x &&& z) ^^^ (y &&& z)

/-- Adds `n` words to a schedule that is kept newest word first. -/
def extend (H : Sha2 w) : Nat → List (BitVec w) → List (BitVec w)
  | 0, ws => ws
  | n + 1, ws =>
    let next := mixShift H.lower₁ (ws.getD 1 0) + ws.getD 6 0 + mixShift H.lower₀ (ws.getD 14 0) +
      ws.getD 15 0
    extend H n (next :: ws)

/-- The schedule of a block: its own sixteen words and those derived from them. -/
def schedule (H : Sha2 w) (block : List (BitVec w)) : List (BitVec w) :=
  (extend H (H.constants.length - 16) block.reverse).reverse

/-- One round with a constant and a word of the schedule. -/
def round (H : Sha2 w) (s : State w) (kx : BitVec w × BitVec w) : State w :=
  let t₁ := s.h + mix H.upper₁ s.e + choose s.e s.f s.g + kx.1 + kx.2
  let t₂ := mix H.upper₀ s.a + majority s.a s.b s.c
  ⟨t₁ + t₂, s.a, s.b, s.c, s.d + t₁, s.e, s.f, s.g⟩

/-- Wordwise addition of states. -/
def State.add (s t : State w) : State w :=
  ⟨s.a + t.a, s.b + t.b, s.c + t.c, s.d + t.d, s.e + t.e, s.f + t.f, s.g + t.g, s.h + t.h⟩

/-- The eight words in order. -/
def State.words (s : State w) : List (BitVec w) := [s.a, s.b, s.c, s.d, s.e, s.f, s.g, s.h]

/-- Folds one block of sixteen words into the state. -/
def compress (H : Sha2 w) (s : State w) (block : List (BitVec w)) : State w :=
  s.add ((H.constants.zip (H.schedule block)).foldl H.round s)

/-- The bytes of a block. -/
def blockBytes (w : Nat) : Nat := 2 * w

/-- The message, a byte with only its top bit set, zeros, and the message's length in bits: as few
zeros as make whole blocks. -/
def pad (w : Nat) (m : Bytes) : Bytes :=
  -- The length takes a quarter of the word size in bytes: two words.
  let room := w / 4
  let used := m.length + 1 + room
  m ++ 0x80 :: List.replicate ((blockBytes w - used % blockBytes w) % blockBytes w) 0 ++
    Bytes.ofNat room (8 * m.length)

/-- The words of a block. -/
def words (w : Nat) (block : Bytes) : List (BitVec w) :=
  (Bytes.blocks (w / 8 - 1) block).map fun b => BitVec.ofNat w (Bytes.toNat b)

/-- The hash of a message. -/
def digest (H : Sha2 w) (m : Bytes) : Bytes :=
  let final := (Bytes.blocks (blockBytes w - 1) (pad w m)).foldl
    (fun s block => H.compress s (words w block)) H.initial
  final.words.flatMap fun x => Bytes.ofNat (w / 8) x.toNat

/-- The constants of SHA-256. -/
def narrow : Sha2 32 where
  upper₀ := (2, 13, 22)
  upper₁ := (6, 11, 25)
  lower₀ := (7, 18, 3)
  lower₁ := (17, 19, 10)
  constants := [0x428a2f98, 0x71374491, 0xb5c0fbcf, 0xe9b5dba5, 0x3956c25b, 0x59f111f1, 0x923f82a4,
    0xab1c5ed5, 0xd807aa98, 0x12835b01, 0x243185be, 0x550c7dc3, 0x72be5d74, 0x80deb1fe, 0x9bdc06a7,
    0xc19bf174, 0xe49b69c1, 0xefbe4786, 0x0fc19dc6, 0x240ca1cc, 0x2de92c6f, 0x4a7484aa, 0x5cb0a9dc,
    0x76f988da, 0x983e5152, 0xa831c66d, 0xb00327c8, 0xbf597fc7, 0xc6e00bf3, 0xd5a79147, 0x06ca6351,
    0x14292967, 0x27b70a85, 0x2e1b2138, 0x4d2c6dfc, 0x53380d13, 0x650a7354, 0x766a0abb, 0x81c2c92e,
    0x92722c85, 0xa2bfe8a1, 0xa81a664b, 0xc24b8b70, 0xc76c51a3, 0xd192e819, 0xd6990624, 0xf40e3585,
    0x106aa070, 0x19a4c116, 0x1e376c08, 0x2748774c, 0x34b0bcb5, 0x391c0cb3, 0x4ed8aa4a, 0x5b9cca4f,
    0x682e6ff3, 0x748f82ee, 0x78a5636f, 0x84c87814, 0x8cc70208, 0x90befffa, 0xa4506ceb, 0xbef9a3f7,
    0xc67178f2]
  initial := ⟨0x6a09e667, 0xbb67ae85, 0x3c6ef372, 0xa54ff53a, 0x510e527f, 0x9b05688c, 0x1f83d9ab,
    0x5be0cd19⟩

/-- The constants of SHA-512. -/
def wide : Sha2 64 where
  upper₀ := (28, 34, 39)
  upper₁ := (14, 18, 41)
  lower₀ := (1, 8, 7)
  lower₁ := (19, 61, 6)
  constants := [0x428a2f98d728ae22, 0x7137449123ef65cd, 0xb5c0fbcfec4d3b2f, 0xe9b5dba58189dbbc,
    0x3956c25bf348b538, 0x59f111f1b605d019, 0x923f82a4af194f9b, 0xab1c5ed5da6d8118,
    0xd807aa98a3030242, 0x12835b0145706fbe, 0x243185be4ee4b28c, 0x550c7dc3d5ffb4e2,
    0x72be5d74f27b896f, 0x80deb1fe3b1696b1, 0x9bdc06a725c71235, 0xc19bf174cf692694,
    0xe49b69c19ef14ad2, 0xefbe4786384f25e3, 0x0fc19dc68b8cd5b5, 0x240ca1cc77ac9c65,
    0x2de92c6f592b0275, 0x4a7484aa6ea6e483, 0x5cb0a9dcbd41fbd4, 0x76f988da831153b5,
    0x983e5152ee66dfab, 0xa831c66d2db43210, 0xb00327c898fb213f, 0xbf597fc7beef0ee4,
    0xc6e00bf33da88fc2, 0xd5a79147930aa725, 0x06ca6351e003826f, 0x142929670a0e6e70,
    0x27b70a8546d22ffc, 0x2e1b21385c26c926, 0x4d2c6dfc5ac42aed, 0x53380d139d95b3df,
    0x650a73548baf63de, 0x766a0abb3c77b2a8, 0x81c2c92e47edaee6, 0x92722c851482353b,
    0xa2bfe8a14cf10364, 0xa81a664bbc423001, 0xc24b8b70d0f89791, 0xc76c51a30654be30,
    0xd192e819d6ef5218, 0xd69906245565a910, 0xf40e35855771202a, 0x106aa07032bbd1b8,
    0x19a4c116b8d2d0c8, 0x1e376c085141ab53, 0x2748774cdf8eeb99, 0x34b0bcb5e19b48a8,
    0x391c0cb3c5c95a63, 0x4ed8aa4ae3418acb, 0x5b9cca4f7763e373, 0x682e6ff3d6b2b8a3,
    0x748f82ee5defb2fc, 0x78a5636f43172f60, 0x84c87814a1f0ab72, 0x8cc702081a6439ec,
    0x90befffa23631e28, 0xa4506cebde82bde9, 0xbef9a3f7b2c67915, 0xc67178f2e372532b,
    0xca273eceea26619c, 0xd186b8c721c0c207, 0xeada7dd6cde0eb1e, 0xf57d4f7fee6ed178,
    0x06f067aa72176fba, 0x0a637dc5a2c898a6, 0x113f9804bef90dae, 0x1b710b35131c471b,
    0x28db77f523047d84, 0x32caab7b40c72493, 0x3c9ebe0a15c9bebc, 0x431d67c49c100d4c,
    0x4cc5d4becb3e42b6, 0x597f299cfc657e2a, 0x5fcb6fab3ad6faec, 0x6c44198c4a475817]
  initial := ⟨0x6a09e667f3bcc908, 0xbb67ae8584caa73b, 0x3c6ef372fe94f82b, 0xa54ff53a5f1d36f1,
    0x510e527fade682d1, 0x9b05688c2b3e6c1f, 0x1f83d9abfb41bd6b, 0x5be0cd19137e2179⟩

theorem length_digest (H : Sha2 w) (m : Bytes) : (H.digest m).length = 8 * (w / 8) := by
  simp only [digest, State.words, List.flatMap_cons, List.flatMap_nil, List.length_append,
    Bytes.length_ofNat, List.length_nil]
  omega

end Sha2

/-- SHA-256. -/
def sha256 (m : Bytes) : Bytes := Sha2.narrow.digest m

/-- SHA-512. -/
def sha512 (m : Bytes) : Bytes := Sha2.wide.digest m

@[simp] theorem length_sha256 (m : Bytes) : (sha256 m).length = 32 := Sha2.length_digest _ m

@[simp] theorem length_sha512 (m : Bytes) : (sha512 m).length = 64 := Sha2.length_digest _ m

end Quorum
