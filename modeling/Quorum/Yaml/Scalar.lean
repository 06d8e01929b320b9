import Quorum.Yaml.Cursor
import Quorum.Yaml.Failure
import Quorum.Bytes

/-!
# Scalars as they are written

A scalar is written plainly, between quotes, or as a block of lines. Line ends inside plain and
quoted scalars are folded: a single one becomes a space, and of several the first is dropped.

## Main definitions

* `Yaml.Quoted.read` — a scalar between quotes
* `Yaml.Plain.read` — a plain scalar
* `Yaml.Block.read` — a block of lines
-/

namespace Quorum

namespace Yaml

/-- What a line end and the empty lines after it are folded to. -/
def folded (first : Char) (more : List Char) : List Char :=
  if keptBreak first ≠ '\n' then first :: more
  else if more.isEmpty then [' '] else more

namespace Quoted

/-- The line ends of empty lines, up to the next character that is no blank. -/
def emptyLines : (fuel : Nat) → List Char → Except Failure (List Char × List Char)
  | 0, _ => .error .malformed
  | fuel + 1, s =>
    -- A marker ends the document, and so a quote that is still open.
    if isMarker s then .error .malformed
    else
      match s.dropWhile isBlank with
      | [] => .ok ([], [])
      | c :: r =>
        if isBreak c then do
          let (more, rest) ← emptyLines fuel r
          .ok (keptBreak c :: more, rest)
        else .ok ([], c :: r)

/-- Blanks inside quotes: kept as they are, or folded where they reach the end of a line. -/
def space (s : List Char) : Except Failure (List Char × List Char) :=
  match s.dropWhile isBlank with
  | [] => .error .malformed
  | c :: r =>
    if isBreak c then do
      let (more, rest) ← emptyLines (r.length + 1) r
      .ok (folded c more, rest)
    else .ok (s.takeWhile isBlank, c :: r)

/-- The character that a one-letter escape stands for. -/
def escaped? (c : Char) : Option Char :=
  match c with
  | '0' => some (Char.ofNat 0)
  | 'a' => some (Char.ofNat 7)
  | 'b' => some (Char.ofNat 8)
  | 't' | '\t' => some '\t'
  | 'n' => some '\n'
  | 'v' => some (Char.ofNat 11)
  | 'f' => some (Char.ofNat 12)
  | 'r' => some '\r'
  | 'e' => some (Char.ofNat 27)
  | ' ' => some ' '
  | '"' => some '"'
  | '\\' => some '\\'
  | '/' => some '/'
  | 'N' => some (Char.ofNat 0x85)
  | '_' => some (Char.ofNat 0xA0)
  | 'L' => some (Char.ofNat 0x2028)
  | 'P' => some (Char.ofNat 0x2029)
  | _ => none

/-- How many digits follow the letter of a numeric escape. -/
def escapeWidth? (c : Char) : Option Nat :=
  match c with
  | 'x' => some 2
  | 'u' => some 4
  | 'U' => some 8
  | _ => none

/-- The character of a numeric escape. Numbers between characters stand for the replacement
character. -/
def numbered (digits : List Char) : Except Failure Char :=
  match digits.mapM Bytes.hexValue? with
  | none => .error .malformed
  | some ds =>
    let n := ds.foldl (fun n d => 16 * n + d) 0
    if Nat.pow 2 31 ≤ n then .error .characterSize
    else if 0x10FFFF < n then .error .character
    else if n.isValidChar then .ok (Char.ofNat n)
    else .ok (Char.ofNat 0xFFFD)

/-- What an escape stands for; an escaped line end stands for nothing. -/
def escape : List Char → Except Failure (List Char × List Char)
  | [] => .error .malformed
  | c :: r =>
    match escaped? c, escapeWidth? c with
    | some d, _ => .ok ([d], r)
    | none, some width =>
      if r.length < width then .error .malformed
      else do
        let d ← numbered (r.take width)
        .ok ([d], r.drop width)
    | none, none => if isBreak c then emptyLines (r.length + 1) r else .error .malformed

/-- The text up to the closing quote, and what follows the quote. -/
def body (double : Bool) : (fuel : Nat) → List Char → Except Failure (List Char × List Char)
  | 0, _ => .error .malformed
  | _, [] => .error .malformed
  | fuel + 1, c :: r =>
    if isBlank c || isBreak c then do
      let (t, rest) ← space (c :: r)
      let (more, rest) ← body double fuel rest
      .ok (t ++ more, rest)
    else if double then
      if c = '"' then .ok ([], r)
      else if c = '\\' then do
        let (t, rest) ← escape r
        let (more, rest) ← body double fuel rest
        .ok (t ++ more, rest)
      else do
        let (more, rest) ← body double fuel r
        .ok (c :: more, rest)
    else if c = Quorum.Quoted.apostrophe then
      match r with
      | d :: r' =>
        if d = Quorum.Quoted.apostrophe then do
          let (more, rest) ← body double fuel r'
          .ok (d :: more, rest)
        else .ok ([], d :: r')
      | [] => .ok ([], [])
    else do
      let (more, rest) ← body double fuel r
      .ok (c :: more, rest)

/-- The text of a scalar whose opening quote has been read, and what follows the closing quote. -/
def read (double : Bool) (s : List Char) : Except Failure (List Char × List Char) :=
  body double (s.length + 1) s

end Quoted

namespace Plain

/-- The characters that end a word inside brackets. -/
def isFlowIndicator (c : Char) : Bool :=
  c == ',' || c == '[' || c == ']' || c == '\x7b' || c == '\x7d'

/-- Whether a word ends here: at a blank, at a colon that ends a key, and inside brackets at an
indicator of brackets. -/
def stops (flow : Bool) : List Char → Bool
  | [] => true
  | c :: r =>
    isBlank c || isBreak c || (flow && (isFlowIndicator c || c == '?')) ||
      (c == ':' && (endsWord r || (flow && r.head?.any isFlowIndicator)))

/-- The next word, and what follows it. -/
def word (flow : Bool) : List Char → List Char × List Char
  | [] => ([], [])
  | c :: r =>
    if stops flow (c :: r) then ([], c :: r)
    else
      let (w, rest) := word flow r
      (c :: w, rest)

/-- What stands between two words, whether it holds a line end, and the place after it. -/
structure Gap where
  /-- What the gap is folded to. -/
  text : List Char
  /-- Whether a line ends in the gap. -/
  broken : Bool
  /-- The place after the gap. -/
  after : Cursor

/-- Spaces and line ends, until something else or a marker; the flag tells about a marker. -/
def blankLines : (fuel : Nat) → Cursor → List Char × Bool × Cursor
  | 0, k => ([], false, k)
  | fuel + 1, k =>
    match k.rest with
    | [] => ([], false, k)
    | c :: _ =>
      if c = ' ' then blankLines fuel k.step
      else if isBreak c then
        if isMarker k.step.rest then ([keptBreak c], true, k.step)
        else
          let (more, marked, k') := blankLines fuel k.step
          (keptBreak c :: more, marked, k')
      else ([], false, k)

/-- The gap that starts here; a marker leaves no gap that could be continued. -/
def gap (k : Cursor) : Gap :=
  let spaces := k.rest.takeWhile (· == ' ')
  let k := k.skipSpaces
  match k.rest with
  | [] => ⟨spaces, false, k⟩
  | c :: _ =>
    if isBreak c then
      if isMarker k.step.rest then ⟨[], true, k.step⟩
      else
        let (more, marked, k') := blankLines k.rest.length k.step
        ⟨if marked then [] else folded c more, true, k'⟩
    else ⟨spaces, false, k⟩

/-- The words from here on: the text read, whether its last gap holds a line end, and the place
reached. Words end before a comment and, outside brackets, at a line with less indentation. -/
def words (flow : Bool) (indent : Nat) : (fuel : Nat) → Cursor → List Char → Bool →
    List Char × Bool × Cursor
  | 0, k, _, broken => ([], broken, k)
  | fuel + 1, k, before, broken =>
    let (w, rest) := word flow k.rest
    if k.rest.head? = some '#' || w.isEmpty then ([], broken, k)
    else
      -- The gap belongs to the scalar only if another word follows it.
      let g := gap (k.upTo rest)
      if g.text.isEmpty || g.after.rest.head? = some '#' || (!flow && g.after.column < indent) then
        (before ++ w, g.broken, g.after)
      else
        let (more, broken, k') := words flow indent fuel g.after g.text g.broken
        (before ++ w ++ more, broken, k')

/-- A plain scalar: its text, whether a line ends behind it, and the place after it. -/
def read (flow : Bool) (indent : Nat) (k : Cursor) : List Char × Bool × Cursor :=
  words flow indent (k.rest.length + 1) k [] false

end Plain

namespace Block

/-- What is done with the line ends behind a block. -/
inductive Chomp where
  /-- All are dropped. -/
  | strip
  /-- One is kept. -/
  | clip
  /-- All are kept. -/
  | keep
deriving DecidableEq

/-- The header of a block. -/
structure Header where
  /-- What is done with the line ends behind the block. -/
  chomp : Chomp
  /-- The indentation of the block, where it is given. -/
  indent : Option Nat

/-- The sign for keeping or dropping line ends, if one stands here. -/
def chomp? : List Char → Option (Chomp × List Char)
  | '+' :: r => some (.keep, r)
  | '-' :: r => some (.strip, r)
  | _ => none

/-- The digit for the indentation, if one stands here. -/
def indent? : List Char → Option (Nat × List Char)
  | c :: r => if c.isDigit then some (c.toNat - 48, r) else none
  | [] => none

/-- The header, whose two parts may come in either order. -/
def header (s : List Char) : Header × List Char :=
  match chomp? s with
  | some (chomp, r) =>
    match indent? r with
    | some (n, r) => (⟨chomp, some n⟩, r)
    | none => (⟨chomp, none⟩, r)
  | none =>
    match indent? s with
    | some (n, r) =>
      match chomp? r with
      | some (chomp, r) => (⟨chomp, some n⟩, r)
      | none => (⟨.clip, some n⟩, r)
    | none => (⟨.clip, none⟩, s)

/-- The rest of a line that may hold a comment only. -/
def lineEnd (k : Cursor) : Except Failure Cursor :=
  let k := k.skipSpaces.skipComment
  if endsLine k.rest then .ok k.step else .error .malformed

/-- The empty lines in front of a block, with the largest number of spaces among them and before
the first line. -/
def margin : (fuel : Nat) → Cursor → Nat → List Char × Nat × Cursor
  | 0, k, deepest => ([], deepest, k)
  | fuel + 1, k, deepest =>
    match k.rest with
    | [] => ([], deepest, k)
    | c :: _ =>
      if c = ' ' then margin fuel k.step (max deepest k.step.column)
      else if isBreak c then
        let (more, deepest, k') := margin fuel k.step deepest
        (keptBreak c :: more, deepest, k')
      else ([], deepest, k)

/-- The line ends of empty lines, up to the start of a line of the block. -/
def emptyLines (indent : Nat) : (fuel : Nat) → Cursor → List Char × Cursor
  | 0, k => ([], k)
  | fuel + 1, k =>
    let k := k.indentTo indent
    match k.rest with
    | [] => ([], k)
    | c :: _ =>
      if isBreak c then
        let (more, k') := emptyLines indent fuel k.step
        (keptBreak c :: more, k')
      else ([], k)

/-- Whether a line of the block starts here. -/
def continues (indent : Nat) (k : Cursor) : Bool := k.column == indent && !k.rest.isEmpty

/-- What joins a line to the next: folding drops a line feed between lines that do not start with
a blank. -/
def joint (fold : Bool) (ended : List Char) (line next : List Char) (between : List Char) :
    List Char :=
  if fold && ended == ['\n'] && !line.head?.any isBlank && !next.head?.any isBlank then
    if between.isEmpty then [' '] else []
  else ended

/-- The lines from here on; then the end of the last line, the line ends after it and the place
reached. -/
def lines (fold : Bool) (indent : Nat) : (fuel : Nat) → Cursor → List Char →
    List Char × List Char × List Char × Cursor
  | 0, k, before => ([], [], before, k)
  | fuel + 1, k, before =>
    if continues indent k then
      let line := k.rest.takeWhile fun c => !isBreak c
      let k := k.skipLine
      let ended := (k.rest.head?.map keptBreak).toList
      -- Empty lines count for this line if another follows, and for the end of the block if not.
      let (between, k) := emptyLines indent (k.rest.length + 1) k.step
      if continues indent k then
        let (more, ended', after, k') := lines fold indent fuel k between
        (before ++ line ++ joint fold ended line k.rest between ++ more, ended', after, k')
      else (before ++ line, ended, between, k)
    else ([], [], before, k)

/-- A block of lines whose indicator has been read. `outer` is the indentation that the block must
exceed. -/
def read (fold : Bool) (outer : Nat) (k : Cursor) : Except Failure (List Char × Cursor) := do
  let (h, rest) := header k.rest
  if h.indent = some 0 ∨ !(rest.head?.all fun c => c == ' ' || isBreak c) then
    .error .malformed
  let k ← lineEnd (k.upTo rest)
  -- A block is indented by one column at least, also at the top.
  let least := max outer 1
  let (before, indent, k) :=
    match h.indent with
    | none =>
      let (before, deepest, k) := margin (k.rest.length + 1) k 0
      (before, max least deepest, k)
    | some n =>
      let (before, k) := emptyLines (least + n - 1) (k.rest.length + 1) k
      (before, least + n - 1, k)
  let (text, ended, after, k) := lines fold indent (k.rest.length + 1) k before
  match h.chomp with
  | .strip => .ok (text, k)
  | .clip => .ok (text ++ ended, k)
  | .keep => .ok (text ++ ended ++ after, k)

end Block

end Yaml

end Quorum
