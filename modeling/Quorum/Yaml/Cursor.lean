/-!
# Places in a text

The layout of a YAML document depends on columns, so reading keeps track of the line and the column
it has come to. Line ends are single line feeds, or one of three separators that count as line ends
as well.

## Main definitions

* `Yaml.isBreak`, `Yaml.isBlank` — line ends and blanks
* `Yaml.endsWord`, `Yaml.isMarker` — places where words end, and the markers between documents
* `Yaml.Cursor` — the rest of a text and the place reached
* `Yaml.Cursor.forward` — moves over characters
-/

namespace Quorum

namespace Yaml

/-- The line feed and the separators that end a line like it. -/
def isBreak (c : Char) : Bool :=
  c == '\n' || c.toNat == 0x85 || c.toNat == 0x2028 || c.toNat == 0x2029

/-- The space and the tab. -/
def isBlank (c : Char) : Bool := c == ' ' || c == '\t'

/-- The line end that is kept for one that was read: the two separators of Unicode stay, the others
become line feeds. -/
def keptBreak (c : Char) : Char :=
  if c.toNat == 0x2028 || c.toNat == 0x2029 then c else '\n'

/-- Whether a word ends here: at a blank, a line end or the end of the text. -/
def endsWord : List Char → Bool
  | [] => true
  | c :: _ => isBlank c || isBreak c

/-- Whether a line ends here. -/
def endsLine : List Char → Bool
  | [] => true
  | c :: _ => isBreak c

/-- Whether a word of three equal characters stands here. -/
def isTriple (c : Char) (s : List Char) : Bool := s.take 3 == [c, c, c] && endsWord (s.drop 3)

/-- Whether a marker that separates documents stands here. -/
def isMarker (s : List Char) : Bool := isTriple '-' s || isTriple '.' s

/-- The mark that may open a text and takes no column. -/
def byteOrderMark : Char := Char.ofNat 0xFEFF

/-- The rest of a text, with the place reached. -/
structure Cursor where
  /-- What is still to be read. -/
  rest : List Char
  /-- How many characters have been read. -/
  index : Nat
  /-- How many lines have been ended. -/
  line : Nat
  /-- How many characters of the line have been read. -/
  column : Nat
deriving Inhabited

namespace Cursor

/-- The start of a text. -/
def start (s : List Char) : Cursor := ⟨s, 0, 0, 0⟩

/-- Moves over one character. -/
def step (k : Cursor) : Cursor :=
  match k.rest with
  | [] => k
  | c :: r =>
    if isBreak c then ⟨r, k.index + 1, k.line + 1, 0⟩
    else ⟨r, k.index + 1, k.line, if c = byteOrderMark then k.column else k.column + 1⟩

/-- Moves over several characters. -/
def forward (k : Cursor) : Nat → Cursor
  | 0 => k
  | n + 1 => k.step.forward n

/-- Moves to a later place, given by what is still to be read there. -/
def upTo (k : Cursor) (rest : List Char) : Cursor := k.forward (k.rest.length - rest.length)

/-- Moves over spaces. -/
def skipSpaces (k : Cursor) : Cursor := k.forward (k.rest.takeWhile (· == ' ')).length

/-- Moves over spaces, but not past a column. -/
def indentTo (k : Cursor) (column : Nat) : Cursor :=
  k.forward (min (column - k.column) (k.rest.takeWhile (· == ' ')).length)

/-- Moves to the end of the line. -/
def skipLine (k : Cursor) : Cursor := k.forward (k.rest.takeWhile fun c => !isBreak c).length

/-- Moves over a comment, if one stands here. -/
def skipComment (k : Cursor) : Cursor := if k.rest.head? = some '#' then k.skipLine else k

end Cursor

end Yaml

end Quorum
