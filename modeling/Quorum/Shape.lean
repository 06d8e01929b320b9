import Quorum.Json.Parser
import Quorum.Lenient

/-!
# Checking documents against the shape of records

A record is read field by field. Every field is looked at, and all findings are reported together,
in the order of the fields; a rule over several fields is applied only when each of them is right.

## Main definitions

* `Checked` — a value, or everything that was found wrong
* `Checked.and` — two values, or the findings of both
* `Shape.int`, `Shape.text`, `Shape.bytes` — the readers of field values
* `Shape.required` — the value of a field that must be there
* `Shape.document` — a record read from a byte string
-/

namespace Quorum

/-- A value, or everything that was found wrong. -/
abbrev Checked (α : Type) := Except (List Issue) α

namespace Checked

variable {α β : Type}

/-- One finding at the place itself. -/
def fail (p : Problem) : Checked α := .error [⟨[], p⟩]

/-- Both values, or the findings of both. -/
def and (a : Checked α) (b : Checked β) : Checked (α × β) :=
  match a, b with
  | .ok x, .ok y => .ok (x, y)
  | .ok _, .error f => .error f
  | .error e, .ok _ => .error e
  | .error e, .error f => .error (e ++ f)

/-- The findings seen from one step further out. -/
def under (s : Step) : Checked α → Checked α
  | .ok x => .ok x
  | .error e => .error (e.map (Issue.under s))

/-- The outcome of an operation that wants the value. -/
def outcome : Checked α → Outcome α
  | .ok x => .ok x
  | .error e => .error (.invalid e)

end Checked

namespace Shape

/-- The integer that a number without fractional part is; numbers of `2 ^ 63` and more are not
taken. -/
def intOfFloat (x : Binary64) : Checked Int :=
  if !x.isFinite then Checked.fail .notFinite
  else
    match x.toInt? with
    | none => Checked.fail .fractional
    | some n => if n.natAbs < Nat.pow 2 63 then .ok n else Checked.fail .integerSize

/-- The integer that a text writes. -/
def intOfText (s : List Char) : Checked Int :=
  match Lenient.int s with
  | .ok n => .ok n
  | .error p => Checked.fail p

/-- An integer; truth values, texts and numbers without fractional part are taken too. -/
def int : Json → Checked Int
  | .int n => .ok n
  | .bool b => .ok (if b then 1 else 0)
  | .float x => intOfFloat x
  | .str s => intOfText s.toList
  | _ => Checked.fail .notInteger

/-- An integer that is at least `bound`. -/
def intFrom (bound : Int) (v : Json) : Checked Int := do
  let n ← int v
  if n < bound then Checked.fail (.below bound) else .ok n

/-- Text. -/
def text : Json → Checked String
  | .str s => .ok s
  | _ => Checked.fail .notText

/-- The name of the type of a value. -/
def kindName : Json → String
  | .null => "NoneType"
  | .bool _ => "bool"
  | .int _ => "int"
  | .float _ => "float"
  | .str _ => "str"
  | .arr _ => "list"
  | .obj _ => "dict"

/-- The bytes that a text stands for in Base64. -/
def base64 : Json → Except BadValue Bytes
  | .str s =>
    match Base64.decode s with
    | .ok b => .ok b
    | .error f => .error (.base64 f)
  | v => .error (.notBytes (kindName v))

/-- Bytes, written in Base64. -/
def bytes (v : Json) : Checked Bytes :=
  match base64 v with
  | .ok b => .ok b
  | .error e => Checked.fail (.refused e)

/-- The value of a field that must be there. -/
def required {α : Type} (name : String) (read : Json → Checked α) (v : Json) : Checked α :=
  Checked.under (.field name) <|
    match v.field? name with
    | none => Checked.fail .missing
    | some w => read w

/-- A record is an object; `read` reads its fields. -/
def record {α : Type} (read : Json → Checked α) (v : Json) : Checked α :=
  match v with
  | .obj _ => read v
  | _ => Checked.fail .notObject

/-- The elements of a list, each read on its own; all findings are reported. -/
def elements {α : Type} (read : Json → Checked α) : (i : Nat) → List Json → Checked (List α)
  | _, [] => .ok []
  | i, v :: vs =>
    (Checked.and (Checked.under (.index i) (read v)) (elements read (i + 1) vs)).map
      fun (x, xs) => x :: xs

/-- A list. -/
def list {α : Type} (read : Json → Checked α) : Json → Checked (List α)
  | .arr vs => elements read 0 vs
  | _ => Checked.fail .notList

/-- The record that a byte string encodes as a document. -/
def document {α : Type} (read : Json → Checked α) (data : Bytes) : Checked α :=
  match Json.ofBytes? data with
  | none => Checked.fail .malformed
  | some v => read v

end Shape

end Quorum
