import Quorum.Text.Quoted

/-!
# Why a YAML document is not read

Most documents that are not read break a rule of the format. A few keep all rules of the format and
name a value that does not exist: a day that is in no month, a truth value with another word, an
escape beyond the last character.

## Main definitions

* `Yaml.CalendarFault` — what is wrong with a date or a time
* `Yaml.Failure` — why a document is not read
* `Yaml.Failure.message` — the wording, for documents that keep the rules of the format
-/

namespace Quorum

namespace Yaml

/-- What is wrong with a date or a time. -/
inductive CalendarFault where
  /-- The year zero. -/
  | year (n : Nat)
  /-- A month past the twelfth, or before the first. -/
  | month
  /-- A day that the month does not have. -/
  | day
  /-- An hour past the last. -/
  | hour
  /-- A minute past the last. -/
  | minute
  /-- A second past the last. -/
  | second
  /-- A distance from universal time of a day or more, in days and seconds. -/
  | offset (days seconds : Int)
deriving DecidableEq, Repr

/-- A span of time in days and seconds, as messages show it. -/
def spanText (days seconds : Int) : String :=
  let parts := (if days = 0 then [] else ["days=" ++ toString days]) ++
    (if seconds = 0 then [] else ["seconds=" ++ toString seconds])
  "datetime.timedelta(" ++ (if parts.isEmpty then "0" else String.intercalate ", " parts) ++ ")"

/-- The wording of a calendar fault. -/
def CalendarFault.message : CalendarFault → String
  | year n => "year " ++ n.repr ++ " is out of range"
  | month => "month must be in 1..12"
  | day => "day is out of range for month"
  | hour => "hour must be in 0..23"
  | minute => "minute must be in 0..59"
  | second => "second must be in 0..59"
  | offset days seconds =>
    "offset must be a timedelta strictly between -timedelta(hours=24) and timedelta(hours=24), " ++
      "not " ++ spanText days seconds ++ "."

/-- Why a document is not read. -/
inductive Failure where
  /-- The document breaks a rule of the format. -/
  | malformed
  /-- An escape for a number past the last character. -/
  | character
  /-- An escape for a number of 32 bits or more. -/
  | characterSize
  /-- A text that is no integer to the base. -/
  | integer (base : Nat) (text : String)
  /-- An integer with more digits than are read. -/
  | digits (count : Nat)
  /-- A text that is no number. -/
  | number (text : String)
  /-- A number to base sixty with a part that counts more than the largest number. -/
  | numberSize
  /-- A date or a time that does not exist. -/
  | calendar (cause : CalendarFault)
  /-- A number without any digit. -/
  | emptyNumber
  /-- A word that is no truth value. -/
  | truthWord (word : String)
  /-- A text that is no date. -/
  | notDate
  /-- A date that is given by a mapping. -/
  | mappedDate
deriving DecidableEq, Repr

namespace Failure

/-- How much of a quoted text that is no integer is shown. -/
def shownWidth : Nat := 200

/-- The wording of a failure; rules of the format have none of their own. -/
def message : Failure → String
  | malformed => ""
  | character => "chr() arg not in range(0x110000)"
  | characterSize => "Python int too large to convert to C int"
  | integer base text =>
    "invalid literal for int() with base " ++ base.repr ++ ": " ++
      String.ofList ((Quoted.encode text).toList.take shownWidth)
  | digits count =>
    "Exceeds the limit (4300 digits) for integer string conversion: value has " ++ count.repr ++
      " digits; use sys.set_int_max_str_digits() to increase the limit"
  | number text => "could not convert string to float: " ++ Quoted.encode text
  | numberSize => "int too large to convert to float"
  | calendar cause => cause.message
  | emptyNumber => "string index out of range"
  | truthWord word => Quoted.encode word
  | notDate => "'NoneType' object has no attribute 'groupdict'"
  | mappedDate => "expected string or bytes-like object, got 'list'"

/-- Whether the failure is that of a refused value. -/
def isBadValue : Failure → Bool
  | character | integer _ _ | digits _ | number _ | calendar _ => true
  | _ => false

end Failure

end Yaml

end Quorum
