import Quorum.Yaml.Cursor

/-!
# Tags

The kind of a value. A plain scalar without a tag takes its kind from its spelling: the words for
truth values and for no value, the spellings of numbers and dates, and everything else is text.

## Main definitions

* `Yaml.Tag` — the kinds of values
* `Yaml.Tag.ofName` — the kind that a tag in full names
* `Yaml.Tag.ofPlain` — the kind of a plain scalar
-/

namespace Quorum

namespace Yaml

/-- The kinds of values. -/
inductive Tag where
  /-- No value. -/
  | null
  /-- A truth value. -/
  | bool
  | int
  /-- Any other number. -/
  | float
  /-- Bytes. -/
  | binary
  /-- A date, or a date with a time. -/
  | timestamp
  /-- Text. -/
  | str
  /-- A list. -/
  | seq
  | map
  /-- A list of single entries. -/
  | pairs
  | set
  /-- The key of entries that are merged into a mapping. -/
  | merge
  /-- The key of the value that stands for a mapping. -/
  | value
  /-- A kind that is not known. -/
  | unknown
deriving DecidableEq, Repr

namespace Tag

/-- What the tags of the format itself start with. -/
def home : String := "tag:yaml.org,2002:"

/-- The kind that a tag in full names. -/
def ofName (s : String) : Tag :=
  let named : List (String × Tag) := [("null", null), ("bool", bool), ("int", int),
    ("float", float), ("binary", binary), ("timestamp", timestamp), ("str", str), ("seq", seq),
    ("map", map), ("omap", pairs), ("pairs", pairs), ("set", set), ("merge", merge),
    ("value", value)]
  ((named.find? fun e => home ++ e.1 == s).map Prod.snd).getD unknown

/-- The words for truth values. -/
def truthWords : List String :=
  ["yes", "Yes", "YES", "no", "No", "NO", "true", "True", "TRUE", "false", "False", "FALSE", "on",
    "On", "ON", "off", "Off", "OFF"]

/-- The words for no value. -/
def nullWords : List String := ["", "~", "null", "Null", "NULL"]

/-- A text without a sign in front. -/
def unsigned : List Char → List Char
  | '-' :: r => r
  | '+' :: r => r
  | s => s

/-- Digits and underscores that start with a digit. -/
def isDigits : List Char → Bool
  | [] => false
  | c :: r => c.isDigit && r.all fun d => d.isDigit || d == '_'

/-- The parts between colons. -/
def parts (s : List Char) : List (List Char) :=
  s.foldr (fun c ps =>
    match c, ps with
    | ':', ps => [] :: ps
    | c, p :: ps => (c :: p) :: ps
    | c, [] => [[c]]) [[]]

/-- A part below sixty: one digit or two, the first of two below six. -/
def isSixtieth : List Char → Bool
  | [d] => d.isDigit
  | [c, d] => c.isDigit && c.toNat < 54 && d.isDigit
  | _ => false

/-- Whether a text spells an integer: binary, octal, decimal, hexadecimal or to base sixty. -/
def isInt (s : List Char) : Bool :=
  match unsigned s with
  | '0' :: 'b' :: r => !r.isEmpty && r.all fun c => c == '0' || c == '1' || c == '_'
  | '0' :: 'x' :: r => !r.isEmpty && r.all fun c => (c.isDigit || c == '_') ||
      (('a' ≤ c && c ≤ 'f') || ('A' ≤ c && c ≤ 'F'))
  | '0' :: r => r.all fun c => ('0' ≤ c && c ≤ '7') || c == '_'
  | r =>
    match parts r with
    | first :: rest => isDigits first && rest.all isSixtieth
    | [] => false

/-- Whether a text is empty or an exponent, which has a sign. -/
def isExponent : List Char → Bool
  | [] => true
  | [_] => false
  | e :: sign :: r =>
    (e == 'e' || e == 'E') && (sign == '-' || sign == '+') && !r.isEmpty && r.all Char.isDigit

/-- Whether a character is a digit or an underscore. -/
def isSpaced (c : Char) : Bool := c.isDigit || c == '_'

/-- Whether a text is a point with digits after it and perhaps an exponent; the digits may be
missing where there are some before the point. -/
def isFraction (needed : Bool) : List Char → Bool
  | '.' :: r =>
    (!needed || r.head?.any Char.isDigit) && isExponent (r.dropWhile isSpaced)
  | _ => false

/-- Whether a text is a number to base sixty with a point. -/
def isSixtiethFraction (s : List Char) : Bool :=
  let whole := s.takeWhile (· != '.')
  match s.dropWhile (· != '.'), parts whole with
  | '.' :: r, first :: second :: rest =>
    r.all isSpaced && isDigits first && (second :: rest).all isSixtieth
  | _, _ => false

/-- Whether a text spells a number with a point. -/
def isFloat (s : List Char) : Bool :=
  let r := unsigned s
  let text := String.ofList r
  (r.head?.any Char.isDigit && isFraction false (r.dropWhile isSpaced)) ||
    isFraction true s || isSixtiethFraction r ||
    [".inf", ".Inf", ".INF"].contains text ||
    [".nan", ".NaN", ".NAN"].contains (String.ofList s)

/-- The digits at the start of a text, at most as many as given, and what follows them. -/
def leadingDigits (most : Nat) (s : List Char) : List Char × List Char :=
  let ds := (s.take most).takeWhile Char.isDigit
  (ds, s.drop ds.length)

/-- Drops a character that must stand here. -/
def dropChar? (c : Char) : List Char → Option (List Char)
  | d :: r => if d = c then some r else none
  | [] => none

/-- The numbers and texts that a date or time is written with. -/
structure DateText where
  year : List Char
  month : List Char
  day : List Char
  /-- Hour, minute, second and the digits after the point. -/
  time : Option (List Char × List Char × List Char × List Char)
  /-- The distance from universal time: whether it is west, hours and minutes. -/
  zone : Option (Bool × List Char × List Char)

/-- The distance from universal time that ends a text. -/
def zone? (s : List Char) : Option (Option (Bool × List Char × List Char)) :=
  match s.dropWhile isBlank with
  | [] => if s.isEmpty then some none else none
  | ['Z'] => some (some (false, ['0'], []))
  | sign :: r =>
    if sign == '+' || sign == '-' then
      let (hours, r) := leadingDigits 2 r
      if hours.isEmpty then none
      else
        match r with
        | [] => some (some (sign == '-', hours, []))
        | c :: r =>
          if c == ':' && r.length == 2 && r.all Char.isDigit then
            some (some (sign == '-', hours, r))
          else none
    else none

/-- The time that follows a date: after the letter between them, or after blanks. -/
def time? (s : List Char) : Option (List Char × List Char × List Char × List Char × List Char) := do
  let r ← match s with
    | 'T' :: r => some r
    | 't' :: r => some r
    | c :: _ => if isBlank c then some (s.dropWhile isBlank) else none
    | [] => none
  let (hour, r) := leadingDigits 2 r
  let r ← dropChar? ':' r
  let (minute, r) := leadingDigits 2 r
  let r ← dropChar? ':' r
  let (second, r) := leadingDigits 2 r
  if hour.isEmpty || minute.length != 2 || second.length != 2 then none
  match r with
  | '.' :: r => some (hour, minute, second, r.takeWhile Char.isDigit, r.dropWhile Char.isDigit)
  | r => some (hour, minute, second, [], r)

/-- A text without a line feed at its end, which spellings do not count; a line feed alone stays. -/
def spelled (s : List Char) : List Char :=
  if s.getLast? = some '\n' && s.length != 1 then s.dropLast else s

/-- The parts of a date, or of a date with a time. -/
def dateText? (s : List Char) : Option DateText := do
  let (year, r) := leadingDigits 4 (spelled s)
  let r ← dropChar? '-' r
  let (month, r) := leadingDigits 2 r
  let r ← dropChar? '-' r
  let (day, r) := leadingDigits 2 r
  if year.length != 4 || month.isEmpty || day.isEmpty then none
  if r.isEmpty then some ⟨year, month, day, none, none⟩
  else
    let (hour, minute, second, fraction, r) ← time? r
    let zone ← zone? r
    some ⟨year, month, day, some (hour, minute, second, fraction), zone⟩

/-- Whether a text spells a date; a date without a time has two digits for month and day. -/
def isDate (s : List Char) : Bool :=
  (dateText? s).any fun d => d.time.isSome || (d.month.length == 2 && d.day.length == 2)

/-- The kind of a plain scalar. -/
def ofPlain (scalar : String) : Tag :=
  let s := String.ofList (spelled scalar.toList)
  if truthWords.contains s then bool
  else if nullWords.contains s then null
  else if s == "<<" then merge
  else if s == "=" then value
  else if s == "!" || s == "&" || s == "*" then unknown
  else if isFloat s.toList then float
  else if isInt s.toList then int
  else if isDate s.toList then timestamp
  else str

end Tag

end Yaml

end Quorum
