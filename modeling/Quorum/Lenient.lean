import Quorum.Fault

/-!
# Numbers written as text

Where a number is expected, text that writes one is taken too: blanks around it, a sign, single
underscores between digits and leading zeros are allowed.

## Main definitions

* `Lenient.isBlank` — the characters that are trimmed
* `Lenient.int` — the integer that a text writes, which may end in a point and zeros
* `Lenient.float?` — the number that a text writes
-/

namespace Quorum

namespace Lenient

/-- The characters that count as blank, in every script. -/
def isBlank (c : Char) : Bool :=
  let n := c.toNat
  (9 ≤ n && n ≤ 13) || n == 0x20 || n == 0x85 || n == 0xA0 || n == 0x1680 ||
    (0x2000 ≤ n && n ≤ 0x200A) || n == 0x2028 || n == 0x2029 || n == 0x202F || n == 0x205F ||
    n == 0x3000

/-- A text without the blanks at its ends. -/
def trim (s : List Char) : List Char :=
  ((s.dropWhile isBlank).reverse.dropWhile isBlank).reverse

/-- A sign, if there is one, and the rest. -/
def sign : List Char → Bool × List Char
  | '-' :: r => (true, r)
  | '+' :: r => (false, r)
  | r => (false, r)

/-- Drops a point at which only zeros follow. -/
def dropPoint (s : List Char) : List Char :=
  let whole := s.takeWhile (· != '.')
  if (s.drop (whole.length + 1)).all (· == '0') then whole else s

/-- Drops zeros in front, with underscores among them, but never the last character. -/
def dropZeros : List Char → List Char
  | '0' :: r =>
    let rest := r.dropWhile fun c => c == '0' || c == '_'
    if rest.isEmpty then [('0' :: r).getLastD '0'] else rest
  | s => s

/-- Whether underscores stand alone and between other characters only. -/
def underscoresFit : List Char → Bool
  | [] => true
  | ['_'] => false
  | '_' :: '_' :: _ => false
  | _ :: r => underscoresFit r

/-- A text without its underscores, where they fit. -/
def dropUnderscores? (s : List Char) : Option (List Char) :=
  if s.head? != some '_' && underscoresFit s then some (s.filter (· != '_')) else none

/-- The natural number that a list of digits writes. -/
def digitsValue (s : List Char) : Nat := s.foldl (fun n c => 10 * n + (c.toNat - 48)) 0

/-- The integer that a text writes. More than 4300 characters are not read, a minus sign among
them. -/
def int (s : List Char) : Except Problem Int :=
  let (negative, body) := sign (trim s)
  match dropUnderscores? (dropZeros (dropPoint body)) with
  | none => .error .integerText
  | some ds =>
    if ds.isEmpty || !ds.all Char.isDigit then .error .integerText
    else if 4300 < ds.length + negative.toNat then .error .integerSize
    else .ok (if negative then -(digitsValue ds : Int) else digitsValue ds)

/-- Whether a text is a word in letters of either case. -/
def isWord (word : String) (s : List Char) : Bool := s.map Char.toLower == word.toList

/-- The exponent that the end of a decimal writes. -/
def exponent? : List Char → Option Int
  | [] => some 0
  | c :: r =>
    if c == 'e' || c == 'E' then
      let (negative, ds) := sign r
      if ds.isEmpty || !ds.all Char.isDigit then none
      else some (if negative then -(digitsValue ds : Int) else digitsValue ds)
    else none

/-- The number that a decimal without sign writes: digits with an optional point among, before or
behind them, and an optional exponent. -/
def decimal? (negative : Bool) (s : List Char) : Option Binary64 :=
  let whole := s.takeWhile Char.isDigit
  let rest := s.dropWhile Char.isDigit
  let (frac, rest) :=
    if rest.head? == some '.' then
      (rest.tail.takeWhile Char.isDigit, rest.tail.dropWhile Char.isDigit)
    else ([], rest)
  if whole.isEmpty && frac.isEmpty then none
  else
    (exponent? rest).map fun e =>
      Binary64.ofDecimal negative (digitsValue (whole ++ frac)) (e - frac.length)

/-- The number that a text without underscores writes, which may be infinite or undefined. -/
def plainFloat? (s : List Char) : Option Binary64 :=
  let (negative, body) := sign s
  if isWord "inf" body || isWord "infinity" body then some (.infinity negative)
  else if isWord "nan" body then some (.nan negative)
  else decimal? negative body

/-- The number that a text writes. -/
def float? (s : List Char) : Option Binary64 :=
  let t := trim s
  match plainFloat? t with
  | some x => some x
  | none => (dropUnderscores? t).bind plainFloat?

end Lenient

end Quorum
