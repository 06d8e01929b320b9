import Quorum.Json
import Quorum.Shape

/-!
# Configuration data

The values that a configuration is given as, whatever document they were read from. The keys of a
mapping may be any values.

## Main definitions

* `Datum` — configuration values
* `Datum.sameKey` — when two keys address the same entry
* `Datum.put` — writes an entry of a mapping
* `Datum.ofJson` — the values of a JSON document
* `Datum.readInt`, `Datum.readFloat`, `Datum.readText`, `Datum.readChoice` — readers
* `Datum.step` — the step from a mapping to one of its entries
-/

namespace Quorum

/-- A configuration value. -/
inductive Datum where
  /-- No value. -/
  | null
  /-- A truth value. -/
  | bool (b : Bool)
  | int (n : Int)
  /-- Any other number. -/
  | float (x : Binary64)
  | text (s : String)
  | bytes (b : Bytes)
  | list (items : List Datum)
  | mapping (entries : List (Datum × Datum))
  /-- A date, with the text it is shown as. -/
  | date (shown : String)
deriving Inhabited

namespace Datum

/-- The exact value of a number, as a sign and a quotient; truth values count as zero and one. -/
def number? : Datum → Option (Bool × Nat × Nat)
  | bool b => some (false, b.toNat, 1)
  | int n => some (n < 0, n.natAbs, 1)
  | float x => x.ratio?.map fun (num, den) => (x.isNegative && num != 0, num, den)
  | _ => none

/-- When two keys address the same entry: equal texts, bytes and dates, and equal numbers of
whatever type. -/
def sameKey (k l : Datum) : Bool :=
  match k, l with
  | null, null => true
  | text s, text t => s == t
  | bytes a, bytes b => a == b
  | date s, date t => s == t
  | float x, float y =>
    if x.isInfinite || y.isInfinite then x == y
    else
      match x.ratio?, y.ratio? with
      | some a, some b => a == b && (x.isNegative == y.isNegative || a.1 == 0)
      | _, _ => false
  | k, l =>
    match k.number?, l.number? with
    | some (m, a, b), some (n, c, d) => m == n && a * d == c * b
    | _, _ => false

/-- Writes an entry: an entry with the same key keeps its place and its key. -/
def put (k v : Datum) : List (Datum × Datum) → List (Datum × Datum)
  | [] => [(k, v)]
  | (l, w) :: r => if sameKey l k then (l, v) :: r else (l, w) :: put k v r

/-- The value of the entry with a text as its key. -/
def lookup? (name : String) : List (Datum × Datum) → Option Datum
  | [] => none
  | (k, v) :: r =>
    match k with
    | text s => if s = name then some v else lookup? name r
    | _ => lookup? name r

mutual

/-- The values of a JSON document. -/
def ofJson : Json → Datum
  | .null => null
  | .bool b => bool b
  | .int n => int n
  | .float x => float x
  | .str s => text s
  | .arr vs => list (ofItems vs)
  | .obj fs => mapping (ofFields fs [])

/-- The values of the items of a list. -/
def ofItems : List Json → List Datum
  | [] => []
  | v :: vs => ofJson v :: ofItems vs

/-- The entries that fields make, written one after another. -/
def ofFields : List (String × Json) → List (Datum × Datum) → List (Datum × Datum)
  | [], entries => entries
  | (k, v) :: fs, entries => ofFields fs (put (text k) (ofJson v) entries)

end

/-- The text of a text or of bytes that encode one; `problem` is what other bytes are. -/
def asText (problem : Problem) : Datum → Option (Except Problem (List Char))
  | text s => some (.ok s.toList)
  | bytes b =>
    match Utf8.decode? b with
    | some s => some (.ok s)
    | none => some (.error problem)
  | _ => none

/-- An integer; truth values, texts and numbers without fractional part are taken too. -/
def readInt (v : Datum) : Checked Int :=
  match v, asText .integerText v with
  | _, some (.ok s) => Shape.intOfText s
  | _, some (.error p) => Checked.fail p
  | int n, _ => .ok n
  | bool b, _ => .ok (if b then 1 else 0)
  | float x, _ => Shape.intOfFloat x
  | _, _ => Checked.fail .notInteger

/-- An integer that is at least `bound`. -/
def readIntFrom (bound : Int) (v : Datum) : Checked Int := do
  let n ← readInt v
  if n < bound then Checked.fail (.below bound) else .ok n

/-- A number; truth values, integers and texts are taken too. -/
def readFloat (v : Datum) : Checked Binary64 :=
  match v, asText .numberText v with
  | _, some (.ok s) =>
    match Lenient.float? s with
    | some x => .ok x
    | none => Checked.fail .numberText
  | _, some (.error p) => Checked.fail p
  | float x, _ => .ok x
  | bool b, _ => .ok (.ofInt (if b then 1 else 0))
  | int n, _ => if (Binary64.ofInt n).isFinite then .ok (.ofInt n) else Checked.fail .notNumber
  | _, _ => Checked.fail .notNumber

/-- Text, or bytes that encode one. -/
def readText (v : Datum) : Checked String :=
  match asText .notUnicode v with
  | some (.ok s) => .ok (String.ofList s)
  | some (.error p) => Checked.fail p
  | none => Checked.fail .notText

/-- One of several words. -/
def readChoice {α : Type} (all : List α) (name : α → String) (v : Datum) : Checked α :=
  let found :=
    match v with
    | text s => all.find? fun x => name x == s
    | _ => none
  match found with
  | some x => .ok x
  | none => Checked.fail (.notAmong (all.map name))

/-- Bytes as they are shown: quoted as text, with every byte past ASCII escaped. -/
def bytesText (b : Bytes) : String :=
  let s := b.map fun x => Char.ofNat x.toNat
  let quote := Quoted.quoteFor s
  let shown := s.flatMap fun c =>
    if c.toNat < 128 then Quoted.escape quote c else Quoted.hexEscape c.toNat
  "b" ++ String.ofList (quote :: shown ++ [quote])

/-- The step from a mapping to the entry with a key: the text of the key, its number, or what it is
shown as. -/
def step : Datum → Step
  | text s => .field s
  | null => .field "None"
  | bool b => .index (if b then 1 else 0)
  | int n => if -(Nat.pow 2 63) ≤ n ∧ n < Nat.pow 2 63 then .index n else .field (toString n)
  | float x => .field x.text
  | bytes b => .field (bytesText b)
  | list _ => .field "[]"
  | mapping _ => .field "\x7b\x7d"
  | date s => .field s

end Datum

end Quorum
