import Quorum.Binary64

/-!
# Decimal text of binary numbers

The shortest decimal that reads back to a number, and the two layouts built on exact decimals:
the plain layout, which turns to an exponent for very large and very small numbers, and the layout
with one place after the point.

## Main definitions

* `Binary64.shortest` — the fewest digits that read back, the nearest such to the number
* `Binary64.text` — the plain layout of the shortest decimal
* `Binary64.tenths` — one place after the point, rounded from the exact value
-/

namespace Quorum

namespace Binary64

/-- The decimal digits of a natural number. -/
def digitsOf (n : Nat) : List Char := Nat.toDigits 10 n

/-- The exponent `e` with `10 ^ e ≤ num / den < 10 ^ (e + 1)`, for positive quotients that are not
below `10 ^ (-400)`. -/
def decimalExponent (num den : Nat) : Int :=
  ((digitsOf (num * Nat.pow 10 400 / den)).length : Int) - 401

/-- `num / den` in units of `10 ^ k`, as a pair of natural numbers. -/
def inUnits (num den : Nat) (k : Int) : Nat × Nat :=
  if 0 ≤ k then (num, den * Nat.pow 10 k.toNat) else (num * Nat.pow 10 (-k).toNat, den)

/-- The better of the two neighbours of `num / den` on the grid of multiples of `10 ^ k` that read
back to `x`, if one does; of two equally near ones the even. -/
def onGrid? (x : Binary64) (num den : Nat) (k : Int) : Option Nat :=
  let (n, d) := inUnits num den k
  let low := n / d
  let reads (c : Nat) : Bool := c != 0 && ofDecimal x.isNegative c k == x
  let nearest := divToEven n d
  let other := if nearest = low then low + 1 else low
  if reads nearest then some nearest else if reads other then some other else none

/-- Drops the zeros at the end of a decimal. -/
def trimZeros (digits : Nat) (k : Int) : Nat × Int :=
  if h : digits ≠ 0 ∧ digits % 10 = 0 then trimZeros (digits / 10) (k + 1) else (digits, k)
termination_by digits
decreasing_by omega

/-- The decimal `digits · 10 ^ k` with the fewest digits that reads back to a finite number; the
exact expansion stands behind the grids of up to seventeen digits. -/
def shortest (x : Binary64) : Nat × Int :=
  match x.ratio? with
  | none => (0, 0)
  | some (num, den) =>
    if num = 0 then (0, 0)
    else
      let e := decimalExponent num den
      let hit := (List.range 17).findSome? fun (i : Nat) =>
        (onGrid? x num den (e - i)).map fun c => (c, e - (i : Int))
      match hit with
      | some (c, k) => trimZeros c k
      | none => (num * Nat.pow 10 den.log2 / den, -(den.log2 : Int))

/-- The digits of an exponent, with at least two places. -/
def exponentDigits (e : Nat) : List Char :=
  if e < 10 then '0' :: digitsOf e else digitsOf e

/-- The plain layout of `digits · 10 ^ k`: positional when the leading digit stands at `10 ^ (-4)`
up to `10 ^ 15`, and with a point always; otherwise with an exponent of at least two places and a
point only between two digits. -/
def layout (digits : Nat) (k : Int) : List Char :=
  let ds := digitsOf digits
  let e := k + ds.length - 1
  if digits = 0 then "0.0".toList
  else if -4 ≤ e ∧ e < 16 then
    if 0 ≤ k then ds ++ List.replicate k.toNat '0' ++ ".0".toList
    else if 0 ≤ e then ds.take (e.toNat + 1) ++ '.' :: ds.drop (e.toNat + 1)
    else "0.".toList ++ List.replicate (-e - 1).toNat '0' ++ ds
  else
    let mark := if ds.length ≤ 1 then ds else ds.take 1 ++ '.' :: ds.drop 1
    mark ++ 'e' :: (if e < 0 then '-' else '+') :: exponentDigits e.natAbs

/-- The plain text of a number. -/
def text (x : Binary64) : String :=
  if x.isNaN then "nan"
  else
    let sign := if x.isNegative then "-" else ""
    if x.isInfinite then sign ++ "inf"
    else
      let (digits, k) := x.shortest
      sign ++ String.ofList (layout digits k)

/-- The text with one place after the point; an exact half goes to the even neighbour. -/
def tenths (x : Binary64) : String :=
  match x.ratio? with
  | none => x.text
  | some (num, den) =>
    let n := divToEven (num * 10) den
    let sign := if x.isNegative then "-" else ""
    sign ++ String.ofList (digitsOf (n / 10) ++ '.' :: digitsOf (n % 10))

end Binary64

end Quorum
