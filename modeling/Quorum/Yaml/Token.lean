import Quorum.Text.Utf8
import Quorum.Yaml.Cursor
import Quorum.Yaml.Failure

/-!
# Tokens

The marks and words that a YAML document is made of, and the readers of those that stand on one
line: names of anchors, tags and directives.

## Main definitions

* `Yaml.Token` — marks and words
* `Yaml.Directive` — lines that set the reading of a document
* `Yaml.anchorName` — the name of an anchor
* `Yaml.tag` — a tag
* `Yaml.directive` — a directive
-/

namespace Quorum

namespace Yaml

/-- A line that sets the reading of a document. -/
inductive Directive where
  /-- The version of the format. -/
  | version (major minor : Nat)
  /-- A handle that tags may start with, and what it stands for. -/
  | handle (name target : String)
  /-- Any other directive. -/
  | other
deriving DecidableEq, Repr

/-- The marks and words of a document. -/
inductive Token where
  | directive (d : Directive)
  | documentStart
  | documentEnd
  /-- The start of a sequence by indentation. -/
  | sequenceStart
  /-- The start of a mapping by indentation. -/
  | mappingStart
  /-- The end of what indentation started. -/
  | blockEnd
  /-- The start of a list in brackets. -/
  | openList
  /-- The end of a list in brackets. -/
  | closeList
  /-- The start of a mapping in braces. -/
  | openMap
  /-- The end of a mapping in braces. -/
  | closeMap
  /-- The start of an item of a sequence. -/
  | item
  /-- A comma between brackets or braces. -/
  | comma
  /-- The start of a key. -/
  | key
  /-- The start of a value. -/
  | value
  /-- A reference to a named node. -/
  | alias (name : String)
  /-- A name for the node that follows. -/
  | anchor (name : String)
  /-- A tag for the node that follows: a handle, unless the tag is given in full, and its rest. -/
  | tag (handle : Option String) (rest : String)
  /-- A scalar, written plainly or not. -/
  | scalar (plain : Bool) (text : String)
  /-- The end of the text. -/
  | streamEnd
deriving DecidableEq, Repr

/-- The characters of names. -/
def isNameChar (c : Char) : Bool := c.isAlphanum || c == '-' || c == '_'

/-- A name and what follows it; there is no empty name. -/
def name (s : List Char) : Except Failure (String × List Char) :=
  match s.takeWhile isNameChar with
  | [] => .error .malformed
  | w => .ok (String.ofList w, s.dropWhile isNameChar)

/-- The name of an anchor or alias, and what follows it. -/
def anchorName (s : List Char) : Except Failure (String × List Char) := do
  let (w, rest) ← name s
  if endsWord rest || rest.head?.any fun c => "?:,]\x7d%@`".toList.contains c then .ok (w, rest)
  else .error .malformed

/-- The characters of tags that stand for themselves. -/
def isTagChar (c : Char) : Bool :=
  c.isAlphanum || "-;/?:@&=+$,_.!~*'()[]".toList.contains c

/-- The bytes of escapes that follow one another. -/
def tagEscapes : List Char → Except Failure (Bytes × List Char)
  | '%' :: a :: b :: r =>
    match Bytes.hexValue? a, Bytes.hexValue? b with
    | some high, some low => do
      let (more, rest) ← tagEscapes r
      .ok (UInt8.ofNat (16 * high + low) :: more, rest)
    | _, _ => .error .malformed
  | '%' :: _ => .error .malformed
  | s => .ok ([], s)

/-- The rest of a tag, and what follows it. -/
def tagChars : (fuel : Nat) → List Char → Except Failure (List Char × List Char)
  | 0, s => .ok ([], s)
  | _, [] => .ok ([], [])
  | fuel + 1, c :: r =>
    if c = '%' then do
      let (bytes, rest) ← tagEscapes (c :: r)
      match Utf8.decode? bytes with
      | none => .error .malformed
      | some t =>
        let (more, rest) ← tagChars fuel rest
        .ok (t ++ more, rest)
    else if isTagChar c then do
      let (more, rest) ← tagChars fuel r
      .ok (c :: more, rest)
    else .ok ([], c :: r)

/-- The rest of a tag, which is not empty, and what follows it. -/
def tagRest (s : List Char) : Except Failure (String × List Char) := do
  let (t, rest) ← tagChars (s.length + 1) s
  if t.isEmpty then .error .malformed else .ok (String.ofList t, rest)

/-- The rest of a handle whose first mark has been read: a name and a second mark. -/
def handleRest (s : List Char) : Except Failure (String × List Char) :=
  match s.dropWhile isNameChar with
  | '!' :: rest => .ok ("!" ++ String.ofList (s.takeWhile isNameChar) ++ "!", rest)
  | _ => .error .malformed

/-- Whether a space or the end of a line stands here. -/
def endsField (s : List Char) : Bool := s.head?.all fun c => c == ' ' || isBreak c

/-- A tag whose mark has been read: its handle and rest, and what follows it. -/
def tag (s : List Char) : Except Failure (Option String × String × List Char) := do
  let (handle, t, rest) ←
    if s.head? = some '<' then do
      let (t, rest) ← tagRest s.tail
      if rest.head? = some '>' then .ok (none, t, rest.tail) else .error .malformed
    else if endsWord s then .ok (none, "!", s)
    else do
      let marked := (s.takeWhile fun c => c != ' ' && !isBreak c).contains '!'
      let (handle, rest) ← if marked then handleRest s else .ok ("!", s)
      let (t, rest) ← tagRest rest
      .ok (some handle, t, rest)
  if endsField rest then .ok (handle, t, rest) else .error .malformed

/-- A text without spaces in front. -/
def dropSpaces (s : List Char) : List Char := s.dropWhile (· == ' ')

/-- A number of at most 4300 digits, and what follows it. -/
def number (s : List Char) : Except Failure (Nat × List Char) :=
  match s.takeWhile Char.isDigit with
  | [] => .error .malformed
  | ds =>
    if 4300 < ds.length then .error (.digits ds.length)
    else .ok (ds.foldl (fun n c => 10 * n + (c.toNat - 48)) 0, s.dropWhile Char.isDigit)

/-- A version, and what follows it. -/
def version (s : List Char) : Except Failure (Directive × List Char) := do
  let (major, rest) ← number (dropSpaces s)
  if rest.head? ≠ some '.' then .error .malformed
  let (minor, rest) ← number rest.tail
  if endsField rest then .ok (.version major minor, rest) else .error .malformed

/-- A handle and what it stands for, and what follows them. -/
def handle (s : List Char) : Except Failure (Directive × List Char) := do
  let s := dropSpaces s
  if s.head? ≠ some '!' then .error .malformed
  let (name, rest) ←
    if s.tail.head? = some ' ' then .ok ("!", s.tail) else handleRest s.tail
  if rest.head? ≠ some ' ' then .error .malformed
  let (target, rest) ← tagRest (dropSpaces rest)
  if endsField rest then .ok (.handle name target, rest) else .error .malformed

/-- A directive whose mark has been read, and what follows it on its line. -/
def directive (s : List Char) : Except Failure (Directive × List Char) := do
  let (w, rest) ← name s
  if !endsField rest then .error .malformed
  if w = "YAML" then version rest
  else if w = "TAG" then handle rest
  else .ok (.other, rest.dropWhile fun c => !isBreak c)

end Yaml

end Quorum
