import Quorum.Curve
import Quorum.Hash.Sha2

/-!
# Scalars and transcripts

Numbers modulo the order of P-256 as byte strings, and the hashing of transcripts to such numbers.
A transcript is a domain and a list of parts, each behind its own length, so that no two
transcripts give the same byte string.

## Main definitions

* `order` — the order of P-256
* `Scalar.toBytes` / `Scalar.ofBytes` — a scalar as 32 bytes, and its reader
* `frame` — a byte string behind its length
* `Transcript` — a domain with parts; `Transcript.bytes` is what is hashed
* `Transcript.challenge` — the scalar that a transcript is hashed to
-/

namespace Quorum

/-- The order of P-256. -/
abbrev order : Nat := Curve.p256.order

namespace Scalar

/-- A scalar, reduced, as 32 bytes. -/
def toBytes (k : Int) : Bytes := Bytes.ofNat 32 (k % order).toNat

/-- The scalar that 32 bytes stand for, which must be below the order. -/
def ofBytes (data : Bytes) : Except BadValue Nat :=
  if data.length ≠ 32 then .error (.scalarLength data.length)
  else if order ≤ Bytes.toNat data then .error .scalarRange
  else .ok (Bytes.toNat data)

/-- The scalar in `[1, order)` that a draw selects. -/
def ofDraw (v : Nat) : Nat := v % (order - 1) + 1

end Scalar

/-- A byte string behind its length, which is written in `width` bytes. -/
def frame (width : Nat) (b : Bytes) : Outcome Bytes :=
  match Bytes.framed? width b with
  | some r => .ok r
  | none => .error .tooBig

/-- The concatenation of parts, each behind its length in four bytes. -/
def frameAll : List Bytes → Outcome Bytes
  | [] => .ok []
  | part :: parts => do
    let first ← frame 4 part
    let rest ← frameAll parts
    .ok (first ++ rest)

/-- What a challenge is derived from. -/
structure Transcript where
  /-- The purpose of the challenge. -/
  domain : Bytes
  /-- What the challenge binds. -/
  parts : List Bytes
deriving DecidableEq

namespace Transcript

/-- The byte string that is hashed. -/
def bytes (t : Transcript) : Outcome Bytes := do
  let domain ← frame 2 t.domain
  let parts ← frameAll t.parts
  .ok (domain ++ parts)

/-- The scalar that the transcript is hashed to. -/
def challenge (t : Transcript) : Outcome Nat := do
  let b ← t.bytes
  .ok (Bytes.toNat (sha512 b) % order)

end Transcript

end Quorum
