import Quorum.Binary64.Text
import Quorum.Text.Quoted

/-!
# JSON documents

A document is a tree of scalars, lists and objects; the fields of an object keep their order, and a
name may occur again. A document is written as a sequence of tokens.

## Main definitions

* `Json` — documents
* `Json.Token` — brackets, separators and scalars
* `Json.tokens` — a document as tokens
* `Json.compact` — the text without any space
* `Json.indented` — the text with one item a line
* `Json.field?` — the value that counts for a name: the last one
-/

namespace Quorum

/-- A JSON document. -/
inductive Json where
  /-- The null value. -/
  | null
  /-- A truth value. -/
  | bool (b : Bool)
  /-- A number written without fraction and exponent. -/
  | int (n : Int)
  /-- Any other number. -/
  | float (x : Binary64)
  /-- Text. -/
  | str (s : String)
  /-- A list. -/
  | arr (items : List Json)
  | obj (fields : List (String × Json))
deriving Inhabited

namespace Json

/-- The pieces that documents are written with. -/
inductive Token where
  /-- The start of an object. -/
  | openObj
  /-- The end of an object. -/
  | closeObj
  /-- The start of a list. -/
  | openArr
  /-- The end of a list. -/
  | closeArr
  /-- Between items. -/
  | comma
  /-- Between a name and its value. -/
  | colon
  /-- The null value. -/
  | null
  /-- A truth value. -/
  | bool (b : Bool)
  | int (n : Int)
  /-- Another number. -/
  | float (x : Binary64)
  /-- Text. -/
  | str (s : List Char)
deriving DecidableEq

mutual

/-- A document as tokens. -/
def tokens : Json → List Token
  | null => [.null]
  | bool b => [.bool b]
  | int n => [.int n]
  | float x => [.float x]
  | str s => [.str s.toList]
  | arr [] => [.openArr, .closeArr]
  | arr (v :: vs) => .openArr :: tokens v ++ itemTokens vs
  | obj [] => [.openObj, .closeObj]
  | obj ((k, v) :: fs) => .openObj :: .str k.toList :: .colon :: tokens v ++ fieldTokens fs

/-- The items of a list after the first, and its end. -/
def itemTokens : List Json → List Token
  | [] => [.closeArr]
  | v :: vs => .comma :: tokens v ++ itemTokens vs

/-- The fields of an object after the first, and its end. -/
def fieldTokens : List (String × Json) → List Token
  | [] => [.closeObj]
  | (k, v) :: fs => .comma :: .str k.toList :: .colon :: tokens v ++ fieldTokens fs

end

/-- What is written for one character of text: the quote, the backslash and control characters are
escaped, all else stands for itself. -/
def escape (c : Char) : List Char :=
  if c = '"' then ['\\', '"']
  else if c = '\\' then ['\\', '\\']
  else if c.toNat = 8 then ['\\', 'b']
  else if c.toNat = 9 then ['\\', 't']
  else if c.toNat = 10 then ['\\', 'n']
  else if c.toNat = 12 then ['\\', 'f']
  else if c.toNat = 13 then ['\\', 'r']
  else if c.toNat < 32 then '\\' :: 'u' :: Quoted.hexDigits 4 c.toNat
  else [c]

/-- Text between quotes. -/
def quote (s : List Char) : List Char := '"' :: s.flatMap escape ++ ['"']

/-- The decimal text of an integer. -/
def intText (n : Int) : List Char :=
  if n < 0 then '-' :: Nat.toDigits 10 n.natAbs else Nat.toDigits 10 n.natAbs

/-- The text of a number that is no integer. -/
def floatText (x : Binary64) : List Char :=
  if x.isNaN then "NaN".toList
  else if x.isInfinite then (if x.isNegative then "-Infinity" else "Infinity").toList
  else x.text.toList

/-- The text of a token. -/
def Token.text : Token → List Char
  | openObj => ['\x7b']
  | closeObj => ['\x7d']
  | openArr => ['[']
  | closeArr => [']']
  | comma => [',']
  | colon => [':']
  | null => "null".toList
  | bool b => (if b then "true" else "false").toList
  | int n => intText n
  | float x => floatText x
  | str s => quote s

/-- The text without any space. -/
def compactChars (v : Json) : List Char := v.tokens.flatMap Token.text

/-- The text without any space. -/
def compact (v : Json) : String := String.ofList v.compactChars

/-- The start of a line at a depth. -/
def newLine (depth : Nat) : List Char := '\n' :: List.replicate (2 * depth) ' '

/-- Lays tokens out with one item a line; `opened` tells whether a bracket has just been opened. -/
def layOut : (depth : Nat) → (opened : Bool) → List Token → List Char
  | _, _, [] => []
  | depth, opened, t :: ts =>
    match t with
    | .openObj | .openArr =>
      (if opened then newLine depth else []) ++ t.text ++ layOut (depth + 1) true ts
    | .closeObj | .closeArr =>
      (if opened then [] else newLine (depth - 1)) ++ t.text ++ layOut (depth - 1) false ts
    | .comma => ',' :: newLine depth ++ layOut depth false ts
    | .colon => ':' :: ' ' :: layOut depth false ts
    | _ => (if opened then newLine depth else []) ++ t.text ++ layOut depth false ts

/-- The text with one item a line, two spaces a level. -/
def indented (v : Json) : String := String.ofList (layOut 0 false v.tokens)

/-- The value that counts for a name: the last one. -/
def lookup? (name : String) : List (String × Json) → Option Json
  | [] => none
  | (k, v) :: fs =>
    match lookup? name fs with
    | some w => some w
    | none => if k = name then some v else none

/-- The value of a field, if the document is an object that has it. -/
def field? (name : String) : Json → Option Json
  | obj fs => lookup? name fs
  | _ => none

end Json

end Quorum
