import Quorum.Json.Lexer
import Quorum.Text.Utf8

/-!
# Reading JSON documents

Tokens are read one by one with a stack of the lists and objects that are still open. Documents
that are nested more than 200 deep are refused.

## Main definitions

* `Json.Frame` — a list or an object that is still open
* `Json.Reader` — the stack, and what may come next
* `Json.Reader.step` — reading one token
* `Json.parse?` — the document that a text is
* `Json.ofBytes?` — the document that a byte string encodes
-/

namespace Quorum

namespace Json

/-- A list or an object that is still open, with what it holds so far, the latest first. -/
inductive Frame where
  /-- An open list. -/
  | items (done : List Json)
  /-- An open object whose next value belongs to a name. -/
  | fields (done : List (String × Json)) (name : String)

/-- What may come next. -/
inductive Expect where
  | value
  /-- A first item, or the end of the list. -/
  | firstItem
  /-- A first name, or the end of the object. -/
  | firstName
  | name
  /-- The colon after a name. -/
  | colon
  /-- A separator, or the end of what is open. -/
  | more
deriving DecidableEq

/-- A reader in the middle of a document, or after its end. -/
inductive Reader where
  /-- Reading goes on. -/
  | reading (stack : List Frame) (expect : Expect)
  /-- The document is complete. -/
  | complete (v : Json)

/-- How deep lists and objects may be nested. -/
def maxDepth : Nat := 200

namespace Reader

/-- Puts a complete value where it belongs. -/
def put (v : Json) : List Frame → Reader
  | [] => .complete v
  | .items done :: stack => .reading (.items (v :: done) :: stack) .more
  | .fields done name :: stack => .reading (.fields ((name, v) :: done) name :: stack) .more

/-- Opens a list or an object, unless it would be too deep. -/
def enter (f : Frame) (expect : Expect) (stack : List Frame) : Option Reader :=
  if stack.length < maxDepth then some (.reading (f :: stack) expect) else none

/-- Closes the innermost list or object. -/
def leave (list : Bool) : List Frame → Option Reader
  | .items done :: stack => if list then some (put (.arr done.reverse) stack) else none
  | .fields done _ :: stack => if list then none else some (put (.obj done.reverse) stack)
  | [] => none

/-- Reads the start of a value. -/
def value (stack : List Frame) : Token → Option Reader
  | .openArr => enter (.items []) .firstItem stack
  | .openObj => enter (.fields [] "") .firstName stack
  | .null => some (put .null stack)
  | .bool b => some (put (.bool b) stack)
  | .int n => some (put (.int n) stack)
  | .float x => some (put (.float x) stack)
  | .str s => some (put (.str (String.ofList s)) stack)
  | _ => none

/-- Reads the name of a field. -/
def name : List Frame → Token → Option Reader
  | .fields done _ :: stack, .str s =>
    some (.reading (.fields done (String.ofList s) :: stack) .colon)
  | _, _ => none

/-- Reads a separator. -/
def more (stack : List Frame) : Token → Option Reader
  | .comma =>
    match stack with
    | .items _ :: _ => some (.reading stack .value)
    | .fields _ _ :: _ => some (.reading stack .name)
    | [] => none
  | .closeArr => leave true stack
  | .closeObj => leave false stack
  | _ => none

/-- Reads one token. -/
def step : Reader → Token → Option Reader
  | .complete _, _ => none
  | .reading stack .value, t => value stack t
  | .reading stack .firstItem, t => if t = .closeArr then leave true stack else value stack t
  | .reading stack .firstName, t => if t = .closeObj then leave false stack else name stack t
  | .reading stack .name, t => name stack t
  | .reading stack .colon, t => if t = .colon then some (.reading stack .value) else none
  | .reading stack .more, t => more stack t

/-- Reads tokens one after another. -/
def run : Reader → List Token → Option Reader
  | r, [] => some r
  | r, t :: ts =>
    match step r t with
    | some r => run r ts
    | none => none

/-- The document that has been read, if it is complete. -/
def result? : Reader → Option Json
  | .complete v => some v
  | .reading _ _ => none

end Reader

/-- The document that a list of characters is. -/
def parse? (s : List Char) : Option Json := do
  let ts ← lex? s
  let r ← Reader.run (.reading [] .value) ts
  r.result?

/-- The document that a byte string encodes. -/
def ofBytes? (b : Bytes) : Option Json := do
  let s ← Utf8.decode? b
  parse? s

end Json

end Quorum
