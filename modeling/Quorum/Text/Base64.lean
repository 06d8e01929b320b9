import Quorum.Bytes

/-!
# Base64

Byte strings as text in the sixty-four character alphabet, with padding. Reading is strict about
the alphabet and about where padding may stand, but the spare bits of the last data character are
ignored, so a byte string has more than one text.

## Main definitions

* `Base64.encode` — three bytes become four characters, a shorter rest is padded with `=`
* `Base64.scan` — the values of the data characters of a text, or what is wrong with it
* `Base64.decode` — the bytes that a text stands for
* `Base64.gather?` — the same for a text that may hold other characters
-/

namespace Quorum

namespace Base64

/-- What makes a text unreadable. -/
inductive Fault where
  /-- A character outside ASCII. -/
  | notAscii
  /-- The text starts with padding. -/
  | leadingPadding
  /-- More text follows the padding that completes a group. -/
  | excess
  /-- A character outside the alphabet. -/
  | alphabet
  /-- A data character after padding. -/
  | discontinuous
  /-- The text ends one data character into a group. -/
  | dataCount (count : Nat)
  /-- The last group is not filled up. -/
  | incomplete
deriving DecidableEq, Repr

/-- The wording of a fault. -/
def Fault.message : Fault → String
  | .notAscii => "string argument should contain only ASCII characters"
  | .leadingPadding => "Invalid base64 data: Leading padding not allowed"
  | .excess => "Invalid base64 data: Excess data after padding"
  | .alphabet => "Invalid base64 data: Only base64 data is allowed"
  | .discontinuous => "Invalid base64 data: Discontinuous padding not allowed"
  | .dataCount n =>
    "Invalid base64 data: Invalid base64-encoded string: number of data characters (" ++
      toString n ++ ") cannot be 1 more than a multiple of 4"
  | .incomplete => "Invalid base64 data: Incorrect padding"

/-- The character for a value below sixty-four. -/
def symbol (n : Nat) : Char :=
  if n < 26 then Char.ofNat (65 + n)
  else if n < 52 then Char.ofNat (71 + n)
  else if n < 62 then Char.ofNat (n - 4)
  else if n = 62 then '+' else '/'

/-- The value of a character of the alphabet. -/
def value? (c : Char) : Option Nat :=
  if 'A' ≤ c ∧ c ≤ 'Z' then some (c.toNat - 65)
  else if 'a' ≤ c ∧ c ≤ 'z' then some (c.toNat - 71)
  else if '0' ≤ c ∧ c ≤ '9' then some (c.toNat + 4)
  else if c = '+' then some 62
  else if c = '/' then some 63
  else none

/-- The characters of a byte string. -/
def encodeChars : Bytes → List Char
  | [] => []
  | [a] => [symbol (a.toNat / 4), symbol (a.toNat % 4 * 16), '=', '=']
  | [a, b] =>
    [symbol (a.toNat / 4), symbol (a.toNat % 4 * 16 + b.toNat / 16), symbol (b.toNat % 16 * 4), '=']
  | a :: b :: c :: r =>
    symbol (a.toNat / 4) :: symbol (a.toNat % 4 * 16 + b.toNat / 16) ::
      symbol (b.toNat % 16 * 4 + c.toNat / 64) :: symbol (c.toNat % 64) :: encodeChars r

/-- The text of a byte string. -/
def encode (b : Bytes) : String := String.ofList (encodeChars b)

/-- The values of the data characters of a text. `count` data characters stand before it, followed
by `pads` padding characters that count towards the current group; `padded` tells whether any
padding has been seen. A text is complete when its last group is. -/
def scan (count pads : Nat) (padded : Bool) : List Char → Except Fault (List Nat)
  | [] =>
    if count % 4 = 0 then .ok []
    else if count % 4 = 1 then .error (.dataCount count)
    else .error .incomplete
  | c :: r =>
    if c = '=' then
      -- Padding counts only where a group could end.
      if 2 ≤ count % 4 then
        if 4 ≤ count % 4 + pads + 1 then (if r.isEmpty then .ok [] else .error .excess)
        else scan count (pads + 1) true r
      else scan count pads true r
    else
      match value? c with
      | none => .error .alphabet
      | some v =>
        if padded then .error .discontinuous
        else (scan (count + 1) 0 false r).map (v :: ·)

/-- Joins groups of four six-bit values into three bytes; a rest of two or three values gives one
or two bytes, and spare bits are dropped. -/
def join : List Nat → Bytes
  | a :: b :: c :: d :: r =>
    UInt8.ofNat (a * 4 + b / 16) :: UInt8.ofNat (b % 16 * 16 + c / 4) ::
      UInt8.ofNat (c % 4 * 64 + d) :: join r
  | [a, b, c] => [UInt8.ofNat (a * 4 + b / 16), UInt8.ofNat (b % 16 * 16 + c / 4)]
  | [a, b] => [UInt8.ofNat (a * 4 + b / 16)]
  | _ => []

/-- The bytes that a text stands for. -/
def decodeChars (s : List Char) : Except Fault Bytes :=
  if s.any fun c => 128 ≤ c.toNat then .error .notAscii
  else if s.head? = some '=' then .error .leadingPadding
  else (scan 0 0 false s).map join

/-- The bytes that a text stands for. -/
def decode (s : String) : Except Fault Bytes := decodeChars s.toList

/-- The values of the data characters among others, up to the padding that completes a group. -/
def gatherFrom? (count pads : Nat) : List Char → Option (List Nat)
  | [] => if count % 4 = 0 then some [] else none
  | c :: r =>
    if c = '=' then
      if 2 ≤ count % 4 then
        if 4 ≤ count % 4 + pads + 1 then some [] else gatherFrom? count (pads + 1) r
      else gatherFrom? count pads r
    else
      match value? c with
      | none => gatherFrom? count pads r
      | some v => (gatherFrom? (count + 1) 0 r).map (v :: ·)

/-- The bytes that the data characters of a text stand for; other characters are passed over. -/
def gather? (s : List Char) : Option Bytes := (gatherFrom? 0 0 s).map join

end Base64

end Quorum
