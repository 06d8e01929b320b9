import Quorum.Text.Quoted
import Quorum.Yaml.Page
import Quorum.Yaml.Tag

/-!
# Writing documents

Documents are written as nested mappings, one entry a line. Text is written plainly where it reads
back as the same text, between apostrophes where it needs quotes, and between double quotes where it
needs escapes. Lines are broken at spaces once they are full.

## Main definitions

* `Yaml.Outline` — what is written: scalars and mappings with texts as keys
* `Yaml.Style` — the ways to write a scalar, and `Yaml.style`, which one is taken
* `Yaml.Outline.text` — the text of a document
-/

namespace Quorum

namespace Yaml

/-- What is written. -/
inductive Outline where
  /-- A scalar with its kind and spelling. -/
  | scalar (tag : Tag) (text : String)
  | mapping (entries : List (String × Outline))

/-- The ways to write a scalar. -/
inductive Style where
  /-- As it is. -/
  | plain
  /-- Between apostrophes. -/
  | single
  /-- Between double quotes. -/
  | double
deriving DecidableEq, Repr

/-- The number of columns after which lines are broken. -/
def lineWidth : Nat := 80

/-- The number of characters from which a key is not written on the line of its value. -/
def keyWidth : Nat := 123

/-- Whether a character needs an escape. -/
def isSpecial (c : Char) : Bool := c != '\n' && !(0x20 ≤ c.toNat && c.toNat ≤ 0x7E)

/-- Whether a text holds a line end. -/
def isMultiline (s : List Char) : Bool := s.any isBreak

/-- Whether two neighbours in a text are a space and a line end, in either order. -/
def mixesSpaces : List Char → Bool
  | c :: d :: r =>
    (c == ' ' && isBreak d) || (isBreak c && d == ' ') || mixesSpaces (d :: r)
  | _ => false

/-- Whether a mark stands behind the first character: a colon at the end of a word, or a number
sign behind a blank. -/
def marksInside : List Char → Bool
  | c :: d :: r =>
    (d == ':' && endsWord r) || (d == '#' && endsWord [c]) || marksInside (d :: r)
  | _ => false

/-- Whether a text starts like something else than a plain scalar. -/
def marksStart : List Char → Bool
  | [] => false
  | c :: r =>
    (c :: r).take 3 == ['-', '-', '-'] || (c :: r).take 3 == ['.', '.', '.'] ||
      "#,[]\x7b\x7d&*!|>'\"%@`".toList.contains c ||
      ((c == '?' || c == ':' || c == '-') && endsWord r)

/-- Whether a text can be written as it is. -/
def plainFits (s : List Char) : Bool :=
  !s.isEmpty && !s.any isSpecial && !isMultiline s && s.head? != some ' ' &&
    s.getLast? != some ' ' && !marksStart s && !marksInside s

/-- Whether a text can be written between apostrophes. -/
def singleFits (s : List Char) : Bool := !s.any isSpecial && !mixesSpaces s

/-- The style of a scalar; keys on the line of their value have no line ends. -/
def style (t : Tag) (simpleKey : Bool) (s : String) : Style :=
  if Tag.ofPlain s = t ∧ plainFits s.toList then .plain
  else if singleFits s.toList && !(simpleKey && isMultiline s.toList) then .single
  else .double

/-- A text as runs of spaces, of line ends and of other characters. -/
def runs (s : List Char) : List (List Char) :=
  s.splitBy fun c d => (c == ' ') == (d == ' ') && isBreak c == isBreak d

/-- Writes a run of spaces, or breaks a full line at a single one. -/
def putSpaces (split : Bool) (column : Nat) (p : Page) (run : List Char) : Page :=
  if run.length = 1 ∧ lineWidth < p.column ∧ split then p.indent column else p.put run

/-- Writes a plain scalar. -/
def putPlain (split : Bool) (column : Nat) (p : Page) (s : List Char) : Page :=
  if s.isEmpty then p
  else
    let p := (if p.blank then p else p.put [' ']).used
    (runs s).foldl (fun p run =>
      if run.head? = some ' ' then (putSpaces split column p run).used else p.put run) p

/-- Writes the runs of a scalar between apostrophes; lines are broken neither at the start nor at
the end. -/
def putSingleRuns (split : Bool) (column : Nat) : (first : Bool) → Page → List (List Char) → Page
  | _, p, [] => p
  | first, p, run :: rest =>
    let q :=
      if run.head? = some ' ' then
        putSpaces (split && !first && !rest.isEmpty) column p run
      else if run.head?.any isBreak then
        ((run.foldl (fun p _ => p.newLine) p.newLine).indent column)
      else p.put (run.flatMap fun c => if c = Quoted.apostrophe then [c, c] else [c])
    putSingleRuns split column false q rest

/-- Writes a scalar between apostrophes. -/
def putSingle (split : Bool) (column : Nat) (p : Page) (s : List Char) : Page :=
  let p := p.mark [Quoted.apostrophe] true false false
  (putSingleRuns split column true p (runs s)).mark [Quoted.apostrophe] false false false

/-- The letter of a one-letter escape. -/
def escapeLetter? (c : Char) : Option Char :=
  match c.toNat with
  | 0 => some '0'
  | 7 => some 'a'
  | 8 => some 'b'
  | 9 => some 't'
  | 10 => some 'n'
  | 11 => some 'v'
  | 12 => some 'f'
  | 13 => some 'r'
  | 27 => some 'e'
  | 34 => some '"'
  | 92 => some '\\'
  | 0x85 => some 'N'
  | 0xA0 => some '_'
  | 0x2028 => some 'L'
  | 0x2029 => some 'P'
  | _ => none

/-- What is written for a character that needs an escape between double quotes. -/
def escapeText? (c : Char) : Option (List Char) :=
  if 0x20 ≤ c.toNat ∧ c.toNat ≤ 0x7E ∧ c ≠ '"' ∧ c ≠ '\\' then none
  else
    match escapeLetter? c with
    | some d => some ['\\', d]
    | none => some <| '\\' ::
      if c.toNat < 0x100 then 'x' :: (Quoted.hexDigits 2 c.toNat).map Char.toUpper
      else if c.toNat < 0x10000 then 'u' :: (Quoted.hexDigits 4 c.toNat).map Char.toUpper
      else 'U' :: (Quoted.hexDigits 8 c.toNat).map Char.toUpper

/-- Breaks a line between double quotes; a space at the start of the next line is escaped. -/
def breakDouble (column : Nat) (p : Page) (next : Option Char) : Page :=
  let p := ((p.put ['\\']).indent column).used
  if next = some ' ' then p.put ['\\'] else p

/-- Writes characters between double quotes. `started` tells whether something stands before them,
and `waiting` holds, the last first, the characters that have been passed over and not been
written. A full line is broken at a space, or where nothing is waiting. -/
def putDoubleChars (split : Bool) (column : Nat) :
    (started : Bool) → (waiting : List Char) → Page → List Char → Page
  | _, waiting, p, [] => p.put waiting.reverse
  | started, waiting, p, c :: r =>
    -- Lines are broken neither before the first character nor behind the last.
    let inner := started && !r.isEmpty && split
    match escapeText? c with
    | some e =>
      let p := (p.put waiting.reverse).put e
      let p := if inner && lineWidth + 1 < p.column then breakDouble column p r.head? else p
      putDoubleChars split column true [] p r
    | none =>
      if inner && (c == ' ' || waiting.isEmpty) && lineWidth < p.column + waiting.length then
        putDoubleChars split column true [c]
          (breakDouble column (p.put waiting.reverse) (some c)) r
      else putDoubleChars split column true (c :: waiting) p r

/-- Writes a scalar between double quotes. -/
def putDouble (split : Bool) (column : Nat) (p : Page) (s : List Char) : Page :=
  let p := p.mark ['"'] true false false
  (putDoubleChars split column false [] p s).mark ['"'] false false false

/-- Writes a scalar; only keys on the line of their value are not broken into lines. -/
def putScalar (simpleKey : Bool) (column : Nat) (p : Page) (t : Tag) (s : String) : Page :=
  match style t simpleKey s with
  | .plain => putPlain (!simpleKey) column p s.toList
  | .single => putSingle (!simpleKey) column p s.toList
  | .double => putDouble (!simpleKey) column p s.toList

/-- Whether a key is written on the line of its value. -/
def isSimpleKey (s : String) : Bool :=
  !s.toList.isEmpty && !isMultiline s.toList && s.toList.length < keyWidth

/-- Writes a key and the colon behind it. -/
def putKey (column : Nat) (p : Page) (k : String) : Page :=
  let p := p.indent column
  if isSimpleKey k then
    (putScalar true (column + 2) p .str k).mark [':'] false false false
  else
    let p := p.mark ['?'] true false true
    ((putScalar false (column + 2) p .str k).indent column).mark [':'] true false true

namespace Outline

mutual

/-- Writes what stands behind a key at a column. -/
def put (column : Nat) (p : Page) : Outline → Page
  | scalar t s => putScalar false (column + 2) p t s
  | mapping [] => (p.mark ['\x7b'] true true false).mark ['\x7d'] false false false
  | mapping (e :: es) => putEntries (column + 2) p (e :: es)

/-- Writes entries at a column. -/
def putEntries (column : Nat) (p : Page) : List (String × Outline) → Page
  | [] => p
  | (k, v) :: es => putEntries column (put column (putKey column p k) v) es

end

/-- The text of a document. -/
def text : Outline → List Char
  | scalar t s => ((putScalar false 2 Page.empty t s).indent 0).text
  | mapping [] => ((put 0 Page.empty (mapping [])).indent 0).text
  | mapping (e :: es) => ((putEntries 0 Page.empty (e :: es)).indent 0).text

end Outline

end Yaml

end Quorum
