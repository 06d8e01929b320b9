import Quorum.Bytes

/-!
# UTF-8

Text as byte strings, one to four bytes a character. Only the shortest form of a character is read.

## Main definitions

* `Utf8.encode` — the bytes of a text
* `Utf8.decode?` — the characters that a byte string encodes, if it is well-formed
-/

namespace Quorum

namespace Utf8

/-- The bytes of a character. -/
def encodeChar (c : Char) : Bytes :=
  let n := c.toNat
  if n < 0x80 then [UInt8.ofNat n]
  else if n < 0x800 then [UInt8.ofNat (0xC0 + n / 64), UInt8.ofNat (0x80 + n % 64)]
  else if n < 0x10000 then
    [UInt8.ofNat (0xE0 + n / 4096), UInt8.ofNat (0x80 + n / 64 % 64), UInt8.ofNat (0x80 + n % 64)]
  else
    [UInt8.ofNat (0xF0 + n / 262144), UInt8.ofNat (0x80 + n / 4096 % 64),
      UInt8.ofNat (0x80 + n / 64 % 64), UInt8.ofNat (0x80 + n % 64)]

/-- The bytes of a list of characters. -/
def encodeChars (s : List Char) : Bytes := s.flatMap encodeChar

/-- The bytes of a text. -/
def encode (s : String) : Bytes := encodeChars s.toList

/-- The character with a code point that is at least `least`, in front of the bytes after it. -/
def charAt? (least n : Nat) (rest : Bytes) : Option (Char × Bytes) :=
  if least ≤ n ∧ n.isValidChar then some (Char.ofNat n, rest) else none

/-- Whether a byte continues a character. -/
def isTail (b : UInt8) : Bool := 0x80 ≤ b && b < 0xC0

/-- The first character of a byte string and the bytes after it. -/
def next? : Bytes → Option (Char × Bytes)
  | [] => none
  | a :: r =>
    if a < 0x80 then some (Char.ofNat a.toNat, r)
    else if a < 0xC0 then none
    else if a < 0xE0 then
      match r with
      | b :: r =>
        if isTail b then charAt? 0x80 ((a.toNat - 0xC0) * 64 + (b.toNat - 0x80)) r else none
      | _ => none
    else if a < 0xF0 then
      match r with
      | b :: c :: r =>
        if isTail b && isTail c then
          charAt? 0x800 ((a.toNat - 0xE0) * 4096 + (b.toNat - 0x80) * 64 + (c.toNat - 0x80)) r
        else none
      | _ => none
    else if a < 0xF8 then
      match r with
      | b :: c :: d :: r =>
        if isTail b && isTail c && isTail d then
          charAt? 0x10000 ((a.toNat - 0xF0) * 262144 + (b.toNat - 0x80) * 4096 +
            (c.toNat - 0x80) * 64 + (d.toNat - 0x80)) r
        else none
      | _ => none
    else none

theorem length_of_next? {b r : Bytes} {c : Char} (h : next? b = some (c, r)) :
    r.length < b.length := by
  unfold next? charAt? at h
  repeat' split at h
  all_goals grind

/-- The characters that a byte string encodes. -/
def decode? (b : Bytes) : Option (List Char) :=
  if b.isEmpty then some []
  else
    match _h : next? b with
    | none => none
    | some (c, r) => (decode? r).map (c :: ·)
termination_by b.length
decreasing_by exact length_of_next? _h

end Utf8

end Quorum
