import Quorum.Binary64.Arith
import Quorum.Datum
import Quorum.Text.Digit
import Quorum.Yaml.Failure
import Quorum.Yaml.Tag

/-!
# What scalars stand for

The value of a scalar of a given kind. A scalar whose kind was taken from its spelling nearly always
has a value; a scalar with a tag may be spelled in any way.

## Main definitions

* `Yaml.integer` — the integer that a text spells
* `Yaml.float` — the number that a text spells
* `Yaml.date` — the date, or date and time, that a text spells
* `Yaml.Tag.datum` — the value of a scalar
-/

namespace Quorum

namespace Yaml

/-- A text without underscores. -/
def withoutUnderscores (s : List Char) : List Char := s.filter (· != '_')

/-- The value of a digit to a base. -/
def digit? (base : Nat) (c : Char) : Option Nat :=
  (Bytes.hexValue? c).bind fun d => if d < base then some d else none

/-- The digits of a text after the mark of its base, if it has one. -/
def afterMark (base : Nat) (s : List Char) : List Char :=
  match s with
  | '0' :: c :: r =>
    let marks := if base = 2 then ['b', 'B'] else if base = 8 then ['o', 'O']
      else if base = 16 then ['x', 'X'] else []
    if marks.contains c then r else s
  | s => s

/-- The integer to a base that a text spells: blanks around it, a sign, the mark of the base and the
digits of any script are allowed. -/
def toBase (base : Nat) (s : List Char) : Except Failure Int :=
  let (negative, body) := Lenient.sign (Lenient.trim (s.map Digit.plain))
  let ds := afterMark base body
  match ds.mapM (digit? base) with
  | none => .error (.integer base (String.ofList s))
  | some values =>
    if values.isEmpty then .error (.integer base (String.ofList s))
    else if base = 10 ∧ 4300 < values.length then .error (.digits values.length)
    else
      let n := values.foldl (fun n d => base * n + d) 0
      .ok (if negative then -(n : Int) else n)

/-- The integer that a text without sign and underscores spells. -/
def unsignedInteger (s : List Char) : Except Failure Int :=
  match s with
  | [] => .error .emptyNumber
  | ['0'] => .ok 0
  | '0' :: 'b' :: r => toBase 2 r
  | '0' :: 'x' :: r => toBase 16 r
  | '0' :: r => toBase 8 ('0' :: r)
  | s =>
    if s.contains ':' then do
      let ns ← (Tag.parts s).mapM (toBase 10)
      .ok (ns.foldl (fun n d => 60 * n + d) 0)
    else toBase 10 s

/-- The integer that a text spells. -/
def integer (s : List Char) : Except Failure Int :=
  match withoutUnderscores s with
  | [] => .error .emptyNumber
  | '-' :: r => (unsignedInteger r).map fun n => -n
  | '+' :: r => unsignedInteger r
  | r => unsignedInteger r

/-- The number that a text without underscores spells, in the digits of any script. -/
def plainFloat (s : List Char) : Except Failure Binary64 :=
  match Lenient.float? (s.map Digit.plain) with
  | some x => .ok x
  | none => .error (.number (String.ofList s))

/-- Adds what parts make, the first of which counts as many as `base`, the next one sixty times as
many, and so on. No part counts more than the largest number. -/
def addSixtieths (sum : Binary64) (base : Int) : List Binary64 → Except Failure Binary64
  | [] => .ok sum
  | x :: xs =>
    if (Binary64.ofInt base).isFinite then
      addSixtieths (Binary64.add sum (Binary64.mul x (Binary64.ofInt base))) (base * 60) xs
    else .error .numberSize

/-- The sum of parts, the last of which counts ones, the one before it sixties, and so on. -/
def sixtieths (xs : List Binary64) : Except Failure Binary64 :=
  addSixtieths (Binary64.zero false) 1 xs.reverse

/-- The number that a text without sign and underscores spells. -/
def unsignedFloat (s : List Char) : Except Failure Binary64 :=
  let text := String.ofList s
  if text = ".inf" then .ok (.infinity false)
  else if text = ".nan" then .ok (.nan false)
  else if s.contains ':' then do sixtieths (← (Tag.parts s).mapM plainFloat)
  else plainFloat s

/-- The number that a text spells. -/
def float (s : List Char) : Except Failure Binary64 :=
  match (withoutUnderscores s).map Char.toLower with
  | [] => .error .emptyNumber
  | '-' :: r => (unsignedFloat r).map Binary64.negate
  | '+' :: r => unsignedFloat r
  | r => unsignedFloat r

/-- The number of days of a month. -/
def daysIn (year month : Nat) : Nat :=
  if month = 2 then
    if year % 4 = 0 ∧ (year % 100 ≠ 0 ∨ year % 400 = 0) then 29 else 28
  else if month = 4 ∨ month = 6 ∨ month = 9 ∨ month = 11 then 30 else 31

/-- Checks that there is such a day. -/
def checkDay (year month day : Nat) : Except Failure Unit :=
  if year = 0 then .error (.calendar (.year year))
  else if month = 0 ∨ 12 < month then .error (.calendar .month)
  else if day = 0 ∨ daysIn year month < day then .error (.calendar .day)
  else .ok ()

/-- Checks that there is such a time of the day. -/
def checkTime (hour minute second : Nat) : Except Failure Unit :=
  if 23 < hour then .error (.calendar .hour)
  else if 59 < minute then .error (.calendar .minute)
  else if 59 < second then .error (.calendar .second)
  else .ok ()

/-- A distance from universal time, as it is shown: a number of days and the seconds after them. -/
def zoneText (west : Bool) (hours minutes : Nat) : Except Failure String :=
  let seconds : Int := 3600 * hours + 60 * minutes
  let signed := if west then -seconds else seconds
  let days := Int.fdiv signed 86400
  let rest := Int.fmod signed 86400
  if 86400 ≤ seconds then .error (.calendar (.offset days rest))
  else if seconds = 0 then .ok "datetime.timezone.utc"
  else .ok ("datetime.timezone(" ++ spanText days rest ++ ")")

/-- Millionths, from the digits after the point. -/
def millionths (fraction : List Char) : Nat :=
  Lenient.digitsValue ((fraction ++ List.replicate 6 '0').take 6)

/-- Drops zeros at the end, but keeps as many numbers as given. -/
def dropZerosAfter (kept : Nat) (ns : List Nat) : List Nat :=
  ns.take kept ++ ((ns.drop kept).reverse.dropWhile (· == 0)).reverse

/-- What is shown for a date, or a date and time. -/
def dateText (d : Tag.DateText) : Except Failure String := do
  let year := Lenient.digitsValue d.year
  let month := Lenient.digitsValue d.month
  let day := Lenient.digitsValue d.day
  let listed (ns : List Nat) : String := String.intercalate ", " (ns.map Nat.repr)
  match d.time with
  | none =>
    checkDay year month day
    .ok ("datetime.date(" ++ listed [year, month, day] ++ ")")
  | some (hour, minute, second, fraction) =>
    let zone ← match d.zone with
      | none => .ok ""
      | some (west, hours, minutes) =>
        (zoneText west (Lenient.digitsValue hours) (Lenient.digitsValue minutes)).map
          fun s => ", tzinfo=" ++ s
    -- The distance from universal time is looked at first, then the day, then the time.
    checkDay year month day
    let hour := Lenient.digitsValue hour
    let minute := Lenient.digitsValue minute
    let second := Lenient.digitsValue second
    checkTime hour minute second
    let parts := dropZerosAfter 5 [year, month, day, hour, minute, second, millionths fraction]
    .ok ("datetime.datetime(" ++ listed parts ++ zone ++ ")")

/-- The date, or date and time, that a text spells. -/
def date (s : List Char) : Except Failure Datum :=
  match Tag.dateText? s with
  | none => .error .notDate
  | some d => (dateText d).map Datum.date

/-- The truth value that a word stands for. -/
def truth (s : String) : Except Failure Datum :=
  let word := String.ofList (s.toList.map Char.toLower)
  if ["yes", "true", "on"].contains word then .ok (.bool true)
  else if ["no", "false", "off"].contains word then .ok (.bool false)
  else .error (.truthWord word)

/-- The bytes that a text stands for. -/
def binary (s : List Char) : Except Failure Datum :=
  if s.any fun c => 128 ≤ c.toNat then .error .malformed
  else
    match Base64.gather? s with
    | some b => .ok (.bytes b)
    | none => .error .malformed

/-- The value of a scalar. -/
def Tag.datum (t : Tag) (s : String) : Except Failure Datum :=
  match t with
  | null => .ok .null
  | bool => truth s
  | int => (integer s.toList).map Datum.int
  | float => (Yaml.float s.toList).map Datum.float
  | binary => Yaml.binary s.toList
  | timestamp => date s.toList
  | str => .ok (.text s)
  | _ => .error .malformed

end Yaml

end Quorum
