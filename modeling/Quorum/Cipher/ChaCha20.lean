import Quorum.Bytes

/-!
# The ChaCha20 stream cipher

The keystream is made of blocks of 64 bytes, each a permutation of a state of four rows of four
words, added to the state itself.

## Main definitions

* `ChaCha20.Row` — four words
* `ChaCha20.State` — four rows: constants, key (two rows), and counter with nonce
* `ChaCha20.block` — the keystream block for a key, a nonce and a counter
* `ChaCha20.keystream` — consecutive blocks
-/

namespace Quorum

namespace ChaCha20

/-- Four words. -/
structure Row where
  /-- The first word. -/
  x₀ : UInt32
  /-- The second word. -/
  x₁ : UInt32
  /-- The third word. -/
  x₂ : UInt32
  /-- The fourth word. -/
  x₃ : UInt32

namespace Row

/-- Applies a binary operation to each pair of words. -/
def zip (f : UInt32 → UInt32 → UInt32) (r s : Row) : Row :=
  ⟨f r.x₀ s.x₀, f r.x₁ s.x₁, f r.x₂ s.x₂, f r.x₃ s.x₃⟩

/-- Adds two rows and rotates nothing. -/
def add (r s : Row) : Row := zip (· + ·) r s

/-- The exclusive or of two rows, each word rotated to the left by `k` bits. -/
def xorRotate (k : UInt32) (r s : Row) : Row :=
  zip (fun a b => let x := a ^^^ b; (x <<< k) ||| (x >>> (32 - k))) r s

/-- The words, the first moved to the end. -/
def turn (r : Row) : Row := ⟨r.x₁, r.x₂, r.x₃, r.x₀⟩

/-- The four words in order. -/
def words (r : Row) : List UInt32 := [r.x₀, r.x₁, r.x₂, r.x₃]

/-- The row of the first four words of a list. -/
def ofWords (ws : List UInt32) : Row := ⟨ws.getD 0 0, ws.getD 1 0, ws.getD 2 0, ws.getD 3 0⟩

end Row

/-- Four rows of four words. -/
structure State where
  /-- The row of constants. -/
  a : Row
  /-- The first half of the key. -/
  b : Row
  /-- The second half of the key. -/
  c : Row
  /-- The counter and the nonce. -/
  d : Row

namespace State

/-- Mixes the four columns. -/
def mixColumns (s : State) : State :=
  let a := s.a.add s.b
  let d := s.d.xorRotate 16 a
  let c := s.c.add d
  let b := s.b.xorRotate 12 c
  let a := a.add b
  let d := d.xorRotate 8 a
  let c := c.add d
  let b := b.xorRotate 7 c
  ⟨a, b, c, d⟩

/-- Mixes the columns, then the diagonals. -/
def doubleRound (s : State) : State :=
  let s := s.mixColumns
  -- Turned rows put the diagonals into columns.
  let t := mixColumns ⟨s.a, s.b.turn, s.c.turn.turn, s.d.turn.turn.turn⟩
  ⟨t.a, t.b.turn.turn.turn, t.c.turn.turn, t.d.turn⟩

/-- The state after `n` double rounds. -/
def permute : (n : Nat) → State → State
  | 0, s => s
  | n + 1, s => permute n s.doubleRound

/-- Wordwise addition of states. -/
def add (s t : State) : State := ⟨s.a.add t.a, s.b.add t.b, s.c.add t.c, s.d.add t.d⟩

/-- The sixteen words in order. -/
def words (s : State) : List UInt32 := s.a.words ++ s.b.words ++ s.c.words ++ s.d.words

end State

/-- The little-endian words of a byte string. -/
def wordsOf (b : Bytes) : List UInt32 :=
  (Bytes.blocks 3 b).map fun w => UInt32.ofNat (Bytes.toNatLE w)

/-- The state for a key of 32 bytes, a nonce of twelve and a counter. -/
def start (key nonce : Bytes) (counter : Nat) : State :=
  ⟨⟨0x61707865, 0x3320646e, 0x79622d32, 0x6b206574⟩,
    Row.ofWords (wordsOf (key.take 16)), Row.ofWords (wordsOf (key.drop 16)),
    Row.ofWords (UInt32.ofNat counter :: wordsOf nonce)⟩

/-- The keystream block at a counter. -/
def block (key nonce : Bytes) (counter : Nat) : Bytes :=
  let s := start key nonce counter
  ((s.permute 10).add s).words.flatMap fun w => Bytes.ofNatLE 4 w.toNat

/-- At least `length` bytes of keystream, from a counter on. -/
def keystream (key nonce : Bytes) (counter length : Nat) : Bytes :=
  (List.range ((length + 63) / 64)).flatMap fun i => block key nonce (counter + i)

end ChaCha20

end Quorum
