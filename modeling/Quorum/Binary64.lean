/-!
# Binary floating-point numbers

A number of the 64-bit binary interchange format, kept as its bits: one sign bit, eleven exponent
bits and fifty-two fraction bits. A finite number is `± m · 2 ^ q` for natural `m`; numbers are
made from exact quotients, rounded to the nearest representable number, a half to the even
neighbour. No arithmetic of the machine is used, so every operation can be reasoned about.

## Main definitions

* `Binary64.magnitude?` — the exact pair `(m, q)` of a finite number
* `Binary64.ofRatio` — the number nearest to a quotient
* `Binary64.ofDecimal` — the number nearest to `digits · 10 ^ exponent`
* `Binary64.lt` — the order of numbers, in which a NaN is related to nothing
-/

namespace Quorum

/-- A number of the 64-bit binary format, given by its bits. -/
structure Binary64 where
  /-- Sign, exponent and fraction, from the most significant bit down. -/
  bits : UInt64
deriving DecidableEq, Inhabited, Repr

namespace Binary64

/-- Whether the sign bit is set. -/
def isNegative (x : Binary64) : Bool := x.bits.toNat / Nat.pow 2 63 == 1

/-- The eleven exponent bits. -/
def exponentField (x : Binary64) : Nat := x.bits.toNat / Nat.pow 2 52 % Nat.pow 2 11

/-- The fifty-two fraction bits. -/
def fractionField (x : Binary64) : Nat := x.bits.toNat % Nat.pow 2 52

/-- Whether the number is neither infinite nor a NaN. -/
def isFinite (x : Binary64) : Bool := x.exponentField != 2047

/-- Whether the number is one of the two infinities. -/
def isInfinite (x : Binary64) : Bool := x.exponentField == 2047 && x.fractionField == 0

/-- Whether the bits stand for no number. -/
def isNaN (x : Binary64) : Bool := x.exponentField == 2047 && x.fractionField != 0

/-- The pair `(m, q)` for which the number is `± m · 2 ^ q`; `none` unless it is finite. -/
def magnitude? (x : Binary64) : Option (Nat × Int) :=
  if x.exponentField = 2047 then none
  else if x.exponentField = 0 then some (x.fractionField, -1074)
  else some (Nat.pow 2 52 + x.fractionField, (x.exponentField : Int) - 1075)

/-- The number with the given sign bit and remaining sixty-three bits. -/
def ofFields (negative : Bool) (rest : Nat) : Binary64 :=
  ⟨UInt64.ofNat ((if negative then Nat.pow 2 63 else 0) + rest)⟩

/-- Positive or negative zero. -/
def zero (negative : Bool) : Binary64 := ofFields negative 0

/-- Positive or negative infinity. -/
def infinity (negative : Bool) : Binary64 := ofFields negative (2047 * Nat.pow 2 52)

/-- The NaN that reading a text gives. -/
def nan (negative : Bool) : Binary64 := ofFields negative (2047 * Nat.pow 2 52 + Nat.pow 2 51)

/-- The integer nearest to `num / den`; a half goes to the even neighbour. -/
def divToEven (num den : Nat) : Nat :=
  let q := num / den
  let r := num % den
  if 2 * r < den then q
  else if den < 2 * r then q + 1
  else if q % 2 = 0 then q else q + 1

/-- `num / (den · 2 ^ q)` as a pair of natural numbers. -/
def scaleDown (num den : Nat) (q : Int) : Nat × Nat :=
  if 0 ≤ q then (num, den * Nat.pow 2 q.toNat) else (num * Nat.pow 2 (-q).toNat, den)

/-- The exponent `q ≥ -1074` for which `num / (den · 2 ^ q)` lies below `2 ^ 53` and, where
possible, not below `2 ^ 52`. -/
def unitExponent (num den : Nat) : Int :=
  let guess := max ((num.log2 : Int) - den.log2 - 53) (-1074)
  let (n, d) := scaleDown num den guess
  if n / d < Nat.pow 2 53 then guess else guess + 1

/-- The number nearest to `± num / den`, an even last bit on a tie; what is too large becomes
infinite. -/
def ofRatio (negative : Bool) (num den : Nat) : Binary64 :=
  if num = 0 then zero negative
  else
    let q := unitExponent num den
    let (n, d) := scaleDown num den q
    -- Rounding up to the next power of two carries into the exponent.
    let rest := (q + 1074).toNat * Nat.pow 2 52 + divToEven n d
    if rest < 2047 * Nat.pow 2 52 then ofFields negative rest else infinity negative

/-- The number nearest to an integer. -/
def ofInt (n : Int) : Binary64 := ofRatio (n < 0) n.natAbs 1

/-- The number nearest to `± digits · 10 ^ exponent`. Decimals beyond every finite number, or
below half of the least positive one, are settled without computing the power. -/
def ofDecimal (negative : Bool) (digits : Nat) (exponent : Int) : Binary64 :=
  if digits = 0 then zero negative
  else
    if exponent + digits.log2 < -1100 then zero negative
    else if 0 ≤ exponent then
      if 400 < exponent then infinity negative
      else ofRatio negative (digits * Nat.pow 10 exponent.toNat) 1
    else ofRatio negative digits (Nat.pow 10 (-exponent).toNat)

/-- The rank of a number in the order from negative to positive infinity; both zeros share one. -/
def rank (x : Binary64) : Int :=
  let rest : Int := x.exponentField * Nat.pow 2 52 + x.fractionField
  if x.isNegative then -rest else rest

/-- Strictly below; never true of a NaN. -/
def lt (x y : Binary64) : Bool :=
  !x.isNaN && !y.isNaN && x.rank < y.rank

/-- The integer that a finite number without fractional part is. -/
def toInt? (x : Binary64) : Option Int :=
  match x.magnitude? with
  | none => none
  | some (m, q) =>
    let n : Option Nat :=
      if 0 ≤ q then some (m * Nat.pow 2 q.toNat)
      else if m % Nat.pow 2 (-q).toNat = 0 then some (m / Nat.pow 2 (-q).toNat) else none
    n.map fun (n : Nat) => if x.isNegative then -(n : Int) else n

/-- The exact quotient `(num, den)` that a finite number's magnitude is. -/
def ratio? (x : Binary64) : Option (Nat × Nat) :=
  x.magnitude?.map fun (m, q) =>
    if 0 ≤ q then (m * Nat.pow 2 q.toNat, 1) else (m, Nat.pow 2 (-q).toNat)

end Binary64

end Quorum
