import Quorum.Bytes

/-!
# The AES block cipher with 256-bit keys

Encryption of one block of sixteen bytes. Bytes are elements of the field of 256 elements; the
substitution is inversion in this field followed by an affine map, and is computed from that
definition.

## Main definitions

* `Aes.mul` — the product of two field elements
* `Aes.substitute` — the substitution of a byte
* `Aes.expandKey` — the fifteen round keys of a 32-byte key
* `Aes.encryptBlock` — the encryption of a block
-/

namespace Quorum

namespace Aes

/-- Multiplication by the generator of the field. -/
def double (x : UInt8) : UInt8 := if x < 0x80 then x <<< 1 else (x <<< 1) ^^^ 0x1b

/-- The product of `x` with the lowest `bits` bits of `y`. -/
def mulBits : (bits : Nat) → (x y : UInt8) → UInt8
  | 0, _, _ => 0
  | bits + 1, x, y => (if y % 2 = 1 then x else 0) ^^^ mulBits bits (double x) (y >>> 1)

/-- The product of two field elements. -/
def mul (x y : UInt8) : UInt8 := mulBits 8 x y

/-- The inverse of a field element, and zero for zero: its 254th power. -/
def inverse (x : UInt8) : UInt8 :=
  let sq (y : UInt8) : UInt8 := mul y y
  let p3 := mul (sq x) x
  let p7 := mul (sq p3) x
  let p15 := mul (sq p7) x
  let p31 := mul (sq p15) x
  let p63 := mul (sq p31) x
  let p127 := mul (sq p63) x
  sq p127

/-- A byte rotated to the left. -/
def rotate (x : UInt8) (k : UInt8) : UInt8 := (x <<< k) ||| (x >>> (8 - k))

/-- The substitution of every byte, in order. -/
def substitutions : Array UInt8 :=
  ((List.range 256).map fun n =>
    let x := inverse (UInt8.ofNat n)
    x ^^^ rotate x 1 ^^^ rotate x 2 ^^^ rotate x 3 ^^^ rotate x 4 ^^^ 0x63).toArray

/-- The substitution of a byte. -/
def substitute (x : UInt8) : UInt8 := substitutions.getD x.toNat 0

/-- The next word of the key schedule: `i` counts words, `newest` holds the words so far, the
newest first. -/
def nextWord (i : Nat) (roundConstant : UInt8) (newest : List Bytes) : Bytes :=
  let last := newest.getD 0 []
  let turned : Bytes :=
    if i % 8 = 0 then
      Bytes.xor ((last.drop 1 ++ last.take 1).map substitute) [roundConstant, 0, 0, 0]
    else if i % 8 = 4 then last.map substitute
    else last
  Bytes.xor turned (newest.getD 7 [])

/-- Adds `n` words to the key schedule. -/
def extendKey : (n i : Nat) → (roundConstant : UInt8) → List Bytes → List Bytes
  | 0, _, _, newest => newest
  | n + 1, i, rc, newest =>
    extendKey n (i + 1) (if i % 8 = 0 then double rc else rc) (nextWord i rc newest :: newest)

/-- The fifteen round keys of a 32-byte key. -/
def expandKey (key : Bytes) : List Bytes :=
  Bytes.blocks 15 ((extendKey 52 8 1 (Bytes.blocks 3 key).reverse).reverse.flatten)

/-- Where each byte of a block comes from when its four rows are rotated. -/
def rowShift : List Nat := [0, 5, 10, 15, 4, 9, 14, 3, 8, 13, 2, 7, 12, 1, 6, 11]

/-- Rotates the rows of a block. -/
def shiftRows (b : Bytes) : Bytes :=
  let a := b.toArray
  rowShift.map fun i => a.getD i 0

/-- Multiplies each column of a block by a fixed matrix. -/
def mixColumns : Bytes → Bytes
  | a :: b :: c :: d :: r =>
    -- Twice a byte and three times the next, as the sum of the column and one doubling.
    let s := a ^^^ b ^^^ c ^^^ d
    (a ^^^ s ^^^ double (a ^^^ b)) :: (b ^^^ s ^^^ double (b ^^^ c)) ::
      (c ^^^ s ^^^ double (c ^^^ d)) :: (d ^^^ s ^^^ double (d ^^^ a)) :: mixColumns r
  | _ => []

/-- The rounds after the first round key; the last one mixes no columns. -/
def rounds : List Bytes → Bytes → Bytes
  | [], b => b
  | [k], b => Bytes.xor (shiftRows (b.map substitute)) k
  | k :: ks, b => rounds ks (Bytes.xor (mixColumns (shiftRows (b.map substitute))) k)

/-- The encryption of a block of sixteen bytes under expanded round keys. -/
def encryptBlock (keys : List Bytes) (block : Bytes) : Bytes :=
  match keys with
  | [] => block
  | k :: ks => rounds ks (Bytes.xor block k)

end Aes

end Quorum
