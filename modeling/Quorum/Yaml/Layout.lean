import Quorum.Yaml.Scalar
import Quorum.Yaml.Token

/-!
# The layout of a document

Indentation and colons give a document its structure. A line that is indented further than the one
before starts a sequence or a mapping, and a line that is indented less ends it. Whether a word is
a key is seen only at the colon behind it, so every word that may be one is preceded by an open
slot, which the colon fills.

## Main definitions

* `Yaml.Layout` — the place reached, the open indentations and brackets, and what has been read
* `Yaml.Layout.next` — reads the next token
* `Yaml.Layout.settled` — the tokens that nothing read later can precede
* `Yaml.scan` — the tokens of a text, and why reading stopped before its end
-/

namespace Quorum

namespace Yaml

/-- What has been read: tokens, and slots that a later colon may fill. -/
inductive Mark where
  | token (t : Token)
  /-- A slot in front of a word that may be a key. -/
  | slot (number : Nat)

/-- A word that may be a key. -/
structure Candidate where
  /-- The slot in front of the word. -/
  slot : Nat
  /-- Whether nothing else than a key can stand there. -/
  required : Bool
  /-- Where the word starts. -/
  place : Cursor

/-- How a slot was filled. -/
structure Filling where
  slot : Nat
  /-- Whether the key starts a mapping. -/
  starts : Bool

/-- The state of reading. -/
structure Layout where
  /-- The place reached. -/
  place : Cursor
  /-- How many brackets and braces are open. -/
  depth : Nat
  /-- The column of the innermost sequence or mapping, or `-1`. -/
  indent : Int
  /-- The columns of those around it. -/
  outer : List Int
  /-- Whether a key may start here. -/
  keyAllowed : Bool
  /-- The word that may be a key, for each depth that has one. -/
  candidates : List (Nat × Candidate)
  /-- What has been read, the last first. -/
  marks : List Mark
  /-- The number of slots. -/
  slots : Nat
  /-- The slots that have been filled. -/
  fillings : List Filling

namespace Layout

/-- The state at the start of a text. -/
def start (s : List Char) : Layout := ⟨.start s, 0, -1, [], true, [], [], 0, []⟩

/-- Adds a token. -/
def emit (l : Layout) (t : Token) : Layout := { l with marks := .token t :: l.marks }

/-- Goes on at a place. -/
def moveTo (l : Layout) (k : Cursor) : Layout := { l with place := k }

/-- Goes on where a given text is still to be read. -/
def upTo (l : Layout) (rest : List Char) : Layout := { l with place := l.place.upTo rest }

/-- Goes on after some characters. -/
def forward (l : Layout) (n : Nat) : Layout := { l with place := l.place.forward n }

/-- Sets whether a key may start. -/
def allowKey (l : Layout) (b : Bool) : Layout := { l with keyAllowed := b }

/-- How many columns a line must have to belong to the innermost sequence or mapping. -/
def margin (l : Layout) : Nat := (l.indent + 1).toNat

/-- The candidate at the current depth. -/
def candidate? (l : Layout) : Option Candidate :=
  (l.candidates.find? fun e => e.1 == l.depth).map Prod.snd

/-- Gives up the candidate at the current depth, which must not be required. -/
def dropCandidate (l : Layout) : Except Failure Layout :=
  match l.candidate? with
  | some c =>
    if c.required then .error .malformed
    else .ok { l with candidates := l.candidates.filter fun e => e.1 != l.depth }
  | none => .ok l

/-- Whether a candidate has been left behind: keys stand on one line and are not longer than 1024
characters. -/
def isStale (l : Layout) (c : Candidate) : Bool :=
  c.place.line != l.place.line || c.place.index + 1024 < l.place.index

/-- Gives up the candidates that have been left behind. -/
def dropStale (l : Layout) : Except Failure Layout :=
  if l.candidates.any fun e => e.2.required && l.isStale e.2 then .error .malformed
  else .ok { l with candidates := l.candidates.filter fun e => !l.isStale e.2 }

/-- Notes that the word that starts here may be a key. -/
def noteCandidate (l : Layout) : Except Failure Layout :=
  if !l.keyAllowed then .ok l
  else do
    let l ← l.dropCandidate
    let c : Candidate := ⟨l.slots, l.depth == 0 && l.indent == l.place.column, l.place⟩
    .ok { l with
      candidates := (l.depth, c) :: l.candidates
      marks := .slot l.slots :: l.marks
      slots := l.slots + 1 }

/-- Ends sequences and mappings until the innermost one is not right of a column. -/
def unwindTo (column : Int) : Int → List Int → List Mark → Int × List Int × List Mark
  | indent, [], marks =>
    if column < indent then (-1, [], .token .blockEnd :: marks) else (indent, [], marks)
  | indent, i :: outer, marks =>
    if column < indent then unwindTo column i outer (.token .blockEnd :: marks)
    else (indent, i :: outer, marks)

/-- Ends the sequences and mappings that a column ends; brackets and braces end nothing. -/
def unwind (l : Layout) (column : Int) : Layout :=
  if l.depth ≠ 0 then l
  else
    let (indent, outer, marks) := unwindTo column l.indent l.outer l.marks
    { l with indent := indent, outer := outer, marks := marks }

/-- Whether a column is right of the innermost sequence or mapping, outside brackets. -/
def isDeeper (l : Layout) (column : Nat) : Bool := l.depth == 0 && l.indent < column

/-- Starts a sequence or mapping at a column, if that is right of the innermost one. -/
def indentAt (l : Layout) (column : Nat) : Layout :=
  if l.isDeeper column then { l with indent := column, outer := l.indent :: l.outer } else l

/-- Moves over blanks, comments and line ends; a key may start on a new line. -/
def skip : (fuel : Nat) → Layout → Layout
  | 0, l => l
  | fuel + 1, l =>
    let k := l.place.skipSpaces.skipComment
    -- Inside brackets a new line does not make a key more likely than before.
    if k.rest.head?.any isBreak then
      skip fuel ((l.moveTo k.step).allowKey (l.keyAllowed || l.depth == 0))
    else l.moveTo k

/-- Moves over the mark that may open the text. -/
def skipMark (l : Layout) : Layout :=
  if l.place.index = 0 ∧ l.place.rest.head? = some byteOrderMark then l.forward 1 else l

/-- A line that stands outside all documents or between them. -/
def outside (l : Layout) : Except Failure Layout := do
  let l ← (l.unwind (-1)).dropCandidate
  .ok (l.allowKey false)

/-- A bracket or brace that opens. -/
def openBracket (l : Layout) (t : Token) : Except Failure Layout := do
  let l ← l.noteCandidate
  .ok (({ l with depth := l.depth + 1 }.allowKey true).forward 1 |>.emit t)

/-- A bracket or brace that closes. -/
def closeBracket (l : Layout) (t : Token) : Except Failure Layout := do
  let l ← l.dropCandidate
  if l.depth = 0 then .error .malformed
  .ok (({ l with depth := l.depth - 1 }.allowKey false).forward 1 |>.emit t)

/-- A comma. -/
def comma (l : Layout) : Except Failure Layout := do
  let l ← (l.allowKey true).dropCandidate
  .ok ((l.forward 1).emit .comma)

/-- The mark of an item, which may start a sequence. -/
def item (l : Layout) : Except Failure Layout := do
  if l.depth = 0 ∧ !l.keyAllowed then .error .malformed
  let column := l.place.column
  let l := if l.isDeeper column then (l.indentAt column).emit .sequenceStart else l
  let l ← (l.allowKey true).dropCandidate
  .ok ((l.forward 1).emit .item)

/-- The mark of a key, which may start a mapping. -/
def key (l : Layout) : Except Failure Layout := do
  if l.depth = 0 ∧ !l.keyAllowed then .error .malformed
  let column := l.place.column
  let l := if l.isDeeper column then (l.indentAt column).emit .mappingStart else l
  let l ← (l.allowKey (l.depth == 0)).dropCandidate
  .ok ((l.forward 1).emit .key)

/-- The colon in front of a value: it makes the candidate a key, if there is one. -/
def value (l : Layout) : Except Failure Layout :=
  match l.candidate? with
  | some c =>
    -- The slot in front of the word becomes a key. A second key cannot follow on this line.
    let starts := l.isDeeper c.place.column
    let l := { l.indentAt c.place.column with
      candidates := l.candidates.filter fun e => e.1 != l.depth
      fillings := ⟨c.slot, starts⟩ :: l.fillings }
    .ok (((l.allowKey false).forward 1).emit .value)
  | none => do
    -- The value of a key that was marked as one, or of an absent key.
    if l.depth = 0 ∧ !l.keyAllowed then .error .malformed
    let column := l.place.column
    let l := if l.isDeeper column then (l.indentAt column).emit .mappingStart else l
    let l ← (l.allowKey (l.depth == 0)).dropCandidate
    .ok ((l.forward 1).emit .value)

/-- A name, a tag or a quoted scalar: a word that may be a key. -/
def word (l : Layout) (read : List Char → Except Failure (Token × List Char)) :
    Except Failure Layout := do
  let l ← l.noteCandidate
  let (t, rest) ← read l.place.rest.tail
  .ok (((l.allowKey false).upTo rest).emit t)

/-- A plain scalar, after which a key may start only on a new line. -/
def plain (l : Layout) : Except Failure Layout := do
  let l ← l.noteCandidate
  let (t, broken, k) := Plain.read (l.depth != 0) l.margin l.place
  .ok (((l.allowKey broken).moveTo k).emit (.scalar true (String.ofList t)))

/-- A block of lines, after which a key may start. -/
def block (l : Layout) (fold : Bool) : Except Failure Layout := do
  let l ← (l.allowKey true).dropCandidate
  let (t, k) ← Block.read fold l.margin l.place.step
  .ok ((l.moveTo k).emit (.scalar false (String.ofList t)))

/-- A line that sets the reading of a document. -/
def directiveLine (l : Layout) : Except Failure Layout := do
  let l ← l.outside
  let (d, rest) ← directive l.place.rest.tail
  let k ← Block.lineEnd (l.place.upTo rest)
  .ok ((l.moveTo k).emit (.directive d))

/-- A marker between documents. -/
def marker (l : Layout) (t : Token) : Except Failure Layout := do
  let l ← l.outside
  .ok ((l.forward 3).emit t)

/-- The end of the text. -/
def finish (l : Layout) : Except Failure Layout := do
  let l ← (l.unwind (-1)).dropCandidate
  .ok (l.emit .streamEnd)

/-- Whether a plain scalar may start with a character that is followed by the given text. -/
def startsPlain (flow : Bool) (c : Char) (r : List Char) : Bool :=
  !(isBlank c || isBreak c || "-?:,[]\x7b\x7d#&*!|>'\"%@`".toList.contains c) ||
    (!endsWord r && (c == '-' || (!flow && (c == '?' || c == ':'))))

/-- Reads the token that starts with a character that is followed by the given text. -/
def token (l : Layout) (c : Char) (r : List Char) : Except Failure Layout :=
  let flow := l.depth != 0
  let ends := endsWord r
  if l.place.column = 0 ∧ c = '%' then l.directiveLine
  else if l.place.column = 0 ∧ isTriple '-' (c :: r) then l.marker .documentStart
  else if l.place.column = 0 ∧ isTriple '.' (c :: r) then l.marker .documentEnd
  else if c = '[' then l.openBracket .openList
  else if c = '\x7b' then l.openBracket .openMap
  else if c = ']' then l.closeBracket .closeList
  else if c = '\x7d' then l.closeBracket .closeMap
  else if c = ',' then l.comma
  else if c = '-' ∧ ends then l.item
  else if c = '?' ∧ (flow ∨ ends) then l.key
  else if c = ':' ∧ (flow ∨ ends) then l.value
  else if c = '*' then l.word fun s => (anchorName s).map fun (w, rest) => (.alias w, rest)
  else if c = '&' then l.word fun s => (anchorName s).map fun (w, rest) => (.anchor w, rest)
  else if c = '!' then l.word fun s => (tag s).map fun (h, t, rest) => (.tag h t, rest)
  else if c = '|' ∧ !flow then l.block false
  else if c = '>' ∧ !flow then l.block true
  else if c = Quorum.Quoted.apostrophe then
    l.word fun s => (Quoted.read false s).map fun (t, rest) =>
      (.scalar false (String.ofList t), rest)
  else if c = '"' then
    l.word fun s => (Quoted.read true s).map fun (t, rest) =>
      (.scalar false (String.ofList t), rest)
  else if startsPlain flow c r then l.plain
  else .error .malformed

/-- Moves to the next token, ending what its column ends. -/
def approach (l : Layout) : Except Failure Layout := do
  let l ← (skip (l.place.rest.length + 1) l.skipMark).dropStale
  .ok (l.unwind l.place.column)

/-- Reads the next token; the flag tells about the end of the text. -/
def next (l : Layout) : Except Failure (Bool × Layout) := do
  let l ← l.approach
  match l.place.rest with
  | [] => (l.finish).map fun l => (true, l)
  | c :: r => (l.token c r).map fun l => (false, l)

/-- The tokens read so far: a filled slot is a key, and may start a mapping. -/
def tokens (l : Layout) : List Token :=
  l.marks.reverse.flatMap fun
    | .token t => [t]
    | .slot n =>
      match l.fillings.find? fun f => f.slot == n with
      | some f => if f.starts then [.mappingStart, .key] else [.key]
      | none => []

/-- Whether a mark is certain: it is no slot that a colon further on may still fill. -/
def isSettled (l : Layout) : Mark → Bool
  | .token _ => true
  | .slot n => l.candidates.all fun e => e.2.slot != n || l.isStale e.2

/-- The tokens that are certain: those in front of the first slot that may still be filled. -/
def settled (l : Layout) : List Token :=
  { l with marks := (l.marks.reverse.takeWhile l.isSettled).reverse }.tokens

end Layout

/-- Reads tokens until the end of the text or the first failure. Whoever asks for a word that may be
a key has to read on, so that a failure comes before such a word. -/
def scanFrom : (fuel : Nat) → Layout → List Token × Failure
  | 0, l => (l.tokens, .malformed)
  | fuel + 1, l =>
    match l.next with
    | .error f => (l.settled, f)
    | .ok (true, l) => (l.tokens, .malformed)
    | .ok (false, l) => scanFrom fuel l

/-- The tokens of a text, and what stands behind the last of them where reading did not come to the
end. -/
def scan (s : List Char) : List Token × Failure := scanFrom (s.length + 1) (.start s)

end Yaml

end Quorum
