/-!
# Byte strings

A byte string is a list of bytes. This module reads and writes natural numbers as big-endian byte
strings and byte strings as hexadecimal text, and frames byte strings by their length.

## Main definitions

* `Bytes.toNat` / `Bytes.ofNat` — the big-endian value of a byte string, and the byte string of a
  given width that holds a number
* `Bytes.ofNatLE` / `Bytes.toNatLE` — the same in little-endian order
* `Bytes.toHex` / `Bytes.ofHex?` — lower-case hexadecimal text and its reader
* `Bytes.framed?` — a byte string behind its own length
-/

namespace Quorum

/-- A byte string. -/
abbrev Bytes := List UInt8

namespace Bytes

/-- The big-endian value of a byte string. -/
def toNat (b : Bytes) : Nat :=
  b.foldl (fun n x => 256 * n + x.toNat) 0

/-- The last `width` base-256 digits of `n`, most significant first. -/
def ofNat : (width n : Nat) → Bytes
  | 0, _ => []
  | width + 1, n => ofNat width (n / 256) ++ [UInt8.ofNat n]

/-- The little-endian value of a byte string. -/
def toNatLE : Bytes → Nat
  | [] => 0
  | x :: b => x.toNat + 256 * toNatLE b

/-- The last `width` base-256 digits of `n`, least significant first. -/
def ofNatLE : (width n : Nat) → Bytes
  | 0, _ => []
  | width + 1, n => UInt8.ofNat n :: ofNatLE width (n / 256)

/-- The bytes of an ASCII string; a character above 255 keeps only its low byte. -/
def ascii (s : String) : Bytes :=
  s.toList.map fun c => UInt8.ofNat c.toNat

/-- Bytewise exclusive or, as long as the shorter argument. -/
def xor (a b : Bytes) : Bytes :=
  List.zipWith (fun x y => x ^^^ y) a b

/-- Appends zero bytes up to the next multiple of `block` bytes. -/
def padTo (block : Nat) (b : Bytes) : Bytes :=
  b ++ List.replicate ((block - b.length % block) % block) 0

/-- Cuts a byte string into pieces of `size + 1` bytes; the last piece may be shorter. -/
def blocks (size : Nat) : Bytes → List Bytes
  | [] => []
  | x :: b => (x :: b.take size) :: blocks size (b.drop size)
termination_by b => b.length
decreasing_by simp only [List.length_drop, List.length_cons]; omega

/-- The text digit of a value below sixteen. -/
def hexDigit (n : Nat) : Char :=
  if n < 10 then Char.ofNat (48 + n) else Char.ofNat (87 + n)

/-- The value of a hexadecimal digit of either case. -/
def hexValue? (c : Char) : Option Nat :=
  if '0' ≤ c ∧ c ≤ '9' then some (c.toNat - 48)
  else if 'a' ≤ c ∧ c ≤ 'f' then some (c.toNat - 87)
  else if 'A' ≤ c ∧ c ≤ 'F' then some (c.toNat - 55)
  else none

/-- Two lower-case hexadecimal digits per byte. -/
def hexChars : Bytes → List Char
  | [] => []
  | x :: b => hexDigit (x.toNat / 16) :: hexDigit (x.toNat % 16) :: hexChars b

/-- Lower-case hexadecimal text. -/
def toHex (b : Bytes) : String := String.ofList (hexChars b)

/-- Reads pairs of hexadecimal digits. -/
def ofHexChars? : List Char → Option Bytes
  | [] => some []
  | [_] => none
  | h :: l :: r => do
    let hi ← hexValue? h
    let lo ← hexValue? l
    let rest ← ofHexChars? r
    some (UInt8.ofNat (16 * hi + lo) :: rest)

/-- Reads hexadecimal text without spaces. -/
def ofHex? (s : String) : Option Bytes := ofHexChars? s.toList

/-- A byte string behind its own length, written in `width` bytes; `none` when the length does
not fit. -/
def framed? (width : Nat) (b : Bytes) : Option Bytes :=
  if b.length < Nat.pow 256 width then some (ofNat width b.length ++ b) else none

@[simp] theorem length_ofNat (width n : Nat) : (ofNat width n).length = width := by
  induction width generalizing n with
  | zero => rfl
  | succ w ih => simp [ofNat, ih]

end Bytes

end Quorum
