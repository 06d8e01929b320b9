import Quorum.Yaml.Cursor

/-!
# Written pages

A page is written from left to right; what follows depends on the column reached and on whether the
line holds anything but indentation.

## Main definitions

* `Yaml.Page` — what has been written, and where the next character goes
* `Yaml.Page.newLine`, `Yaml.Page.indent` — new lines and indentation
* `Yaml.Page.mark` — a mark, behind a space where one is needed
-/

namespace Quorum

namespace Yaml

/-- What has been written, and where the next character goes. -/
structure Page where
  /-- What has been written, the last character first. -/
  written : List Char
  /-- The column of the next character. -/
  column : Nat
  /-- Whether a blank or nothing stands before the next character. -/
  blank : Bool
  /-- Whether the line holds nothing but indentation and marks. -/
  fresh : Bool

namespace Page

/-- A page without anything on it. -/
def empty : Page := ⟨[], 0, true, true⟩

/-- The text on a page. -/
def text (p : Page) : List Char := p.written.reverse

/-- Writes characters on the line. -/
def put (p : Page) (s : List Char) : Page :=
  { p with written := s.reverse ++ p.written, column := p.column + s.length }

/-- Ends the line. -/
def newLine (p : Page) : Page := ⟨'\n' :: p.written, 0, true, true⟩

/-- Goes to a column, on a new line unless this one is still free up to there. -/
def indent (p : Page) (column : Nat) : Page :=
  let p := if !p.fresh || column < p.column || (p.column == column && !p.blank) then p.newLine
    else p
  if p.column < column then
    { p.put (List.replicate (column - p.column) ' ') with blank := true }
  else p

/-- Notes that something else than indentation has been written. -/
def used (p : Page) : Page := { p with blank := false, fresh := false }

/-- Writes a mark, behind a space where one is `needed` and none stands there. `blank` tells whether
it counts as a blank for what follows, `fresh` whether the line stays fresh. -/
def mark (p : Page) (s : List Char) (needed blank fresh : Bool) : Page :=
  let q := p.put (if p.blank || !needed then s else ' ' :: s)
  { q with blank := blank, fresh := p.fresh && fresh }

end Page

end Yaml

end Quorum
