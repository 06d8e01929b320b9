import Quorum.Bytes
import Quorum.Json

/-!
# Reading JSON tokens

The text of a document cut into tokens. The rules are those of the standard, and besides them the
words for infinite and undefined numbers are read. An integer may have up to 4300 characters.

## Main definitions

* `Json.string?` — the text up to the closing quote, with its escapes resolved
* `Json.number?` — the number that a run of characters is
* `Json.token?` — the first token of a text
* `Json.lex?` — all tokens of a text
-/

namespace Quorum

namespace Json

/-- The value of four hexadecimal digits. -/
def hex4? (a b c d : Char) : Option Nat := do
  let a ← Bytes.hexValue? a
  let b ← Bytes.hexValue? b
  let c ← Bytes.hexValue? c
  let d ← Bytes.hexValue? d
  some (((a * 16 + b) * 16 + c) * 16 + d)

/-- The character that a letter after a backslash stands for. -/
def unescape? (c : Char) : Option Char :=
  if c = '"' ∨ c = '\\' ∨ c = '/' then some c
  else if c = 'b' then some '\x08'
  else if c = 'f' then some '\x0c'
  else if c = 'n' then some '\n'
  else if c = 'r' then some '\r'
  else if c = 't' then some '\t'
  else none

/-- The first character of a text inside quotes, which may be an escape, and what follows it. Both
halves of a pair of surrogates must be there. -/
def char? : List Char → Option (Char × List Char)
  | '\\' :: 'u' :: a :: b :: c :: d :: r =>
    match hex4? a b c d with
    | none => none
    | some n =>
      if n < 0xD800 ∨ 0xE000 ≤ n then some (Char.ofNat n, r)
      else if 0xDC00 ≤ n then none
      else
        match r with
        | '\\' :: 'u' :: a :: b :: c :: d :: r =>
          match hex4? a b c d with
          | none => none
          | some m =>
            if 0xDC00 ≤ m ∧ m < 0xE000 then
              some (Char.ofNat (0x10000 + (n - 0xD800) * 1024 + (m - 0xDC00)), r)
            else none
        | _ => none
  | '\\' :: c :: r =>
    match unescape? c with
    | none => none
    | some d => some (d, r)
  | '\\' :: [] => none
  | c :: r => if c.toNat < 32 then none else some (c, r)
  | [] => none

theorem length_of_char? {s r : List Char} {c : Char} (h : char? s = some (c, r)) :
    r.length < s.length := by
  unfold char? at h
  repeat' split at h
  all_goals simp only [Option.some.injEq, Prod.mk.injEq, reduceCtorEq] at h
  all_goals (obtain ⟨-, rfl⟩ := h; simp only [List.length_cons]; omega)

/-- The text up to the closing quote, and what follows the quote. -/
def string? (s : List Char) : Option (List Char × List Char) :=
  if s.head? = some '"' then some ([], s.tail)
  else
    match _h : char? s with
    | none => none
    | some (c, r) => (string? r).map fun (t, rest) => (c :: t, rest)
termination_by s.length
decreasing_by exact length_of_char? _h

theorem length_of_string? {s t r : List Char} (h : string? s = some (t, r)) :
    r.length < s.length := by
  fun_induction string? s generalizing t with
  | case1 s hs =>
    cases s with
    | nil => simp at hs
    | cons c s => simp_all
  | case2 => simp at h
  | case3 s hs c r' hc ih =>
    obtain ⟨⟨u, v⟩, hu, he⟩ := Option.map_eq_some_iff.1 h
    simp only [Prod.mk.injEq] at he
    obtain ⟨rfl, rfl⟩ := he
    have := ih hu
    have := length_of_char? hc
    omega

/-- Whether a character can be part of a number. -/
def isNumberChar (c : Char) : Bool :=
  c.isDigit || c == '.' || c == 'e' || c == 'E' || c == '+' || c == '-'

/-- The natural number that a list of digits writes. -/
def digitsValue (s : List Char) : Nat := s.foldl (fun n c => 10 * n + (c.toNat - 48)) 0

/-- A sign that an exponent may have, and the rest. -/
def exponentSign : List Char → Bool × List Char
  | '+' :: r => (false, r)
  | '-' :: r => (true, r)
  | r => (false, r)

/-- The exponent part of a number, empty or led by a letter. -/
def exponent? : List Char → Option Int
  | [] => some 0
  | c :: r =>
    if c = 'e' ∨ c = 'E' then
      let (negative, ds) := exponentSign r
      if ds.isEmpty || !ds.all Char.isDigit then none
      else some (if negative then -(digitsValue ds : Int) else digitsValue ds)
    else none

/-- The fraction digits of a number and its exponent part. -/
def fraction? : List Char → Option (List Char × List Char)
  | '.' :: r =>
    let ds := r.takeWhile Char.isDigit
    if ds.isEmpty then none else some (ds, r.dropWhile Char.isDigit)
  | r => some ([], r)

/-- A number without its sign. -/
def unsigned? (negative : Bool) (s : List Char) : Option Token :=
  let whole := s.takeWhile Char.isDigit
  let rest := s.dropWhile Char.isDigit
  if whole.isEmpty || (whole.head? == some '0' && 1 < whole.length) then none
  else if 4300 < whole.length + negative.toNat then none
  else if rest.isEmpty then
    some (.int (if negative then -(digitsValue whole : Int) else digitsValue whole))
  else
    match fraction? rest with
    | none => none
    | some (frac, rest) =>
      (exponent? rest).map fun e =>
        .float (Binary64.ofDecimal negative (digitsValue (whole ++ frac)) (e - frac.length))

/-- The number that a run of characters is. -/
def number? : List Char → Option Token
  | '-' :: r => unsigned? true r
  | r => unsigned? false r

/-- The first token of a text that does not start with a space, and what follows it. -/
def token? : List Char → Option (Token × List Char)
  | '\x7b' :: r => some (.openObj, r)
  | '\x7d' :: r => some (.closeObj, r)
  | '[' :: r => some (.openArr, r)
  | ']' :: r => some (.closeArr, r)
  | ',' :: r => some (.comma, r)
  | ':' :: r => some (.colon, r)
  | '"' :: r => (string? r).map fun (t, rest) => (.str t, rest)
  | 'n' :: 'u' :: 'l' :: 'l' :: r => some (.null, r)
  | 't' :: 'r' :: 'u' :: 'e' :: r => some (.bool true, r)
  | 'f' :: 'a' :: 'l' :: 's' :: 'e' :: r => some (.bool false, r)
  | 'N' :: 'a' :: 'N' :: r => some (.float (.nan false), r)
  | 'I' :: 'n' :: 'f' :: 'i' :: 'n' :: 'i' :: 't' :: 'y' :: r => some (.float (.infinity false), r)
  | '-' :: 'I' :: 'n' :: 'f' :: 'i' :: 'n' :: 'i' :: 't' :: 'y' :: r =>
    some (.float (.infinity true), r)
  | c :: r =>
    if c.isDigit || c == '-' then
      (number? (c :: r.takeWhile isNumberChar)).map fun t => (t, r.dropWhile isNumberChar)
    else none
  | [] => none

theorem length_dropWhile_le (p : Char → Bool) (s : List Char) :
    (s.dropWhile p).length ≤ s.length := (List.dropWhile_sublist p).length_le

theorem length_of_token? {s r : List Char} {t : Token} (h : token? s = some (t, r)) :
    r.length < s.length := by
  unfold token? at h
  split at h
  case h_7 s =>
    obtain ⟨⟨u, v⟩, hu, he⟩ := Option.map_eq_some_iff.1 h
    simp only [Prod.mk.injEq] at he
    obtain ⟨-, rfl⟩ := he
    have := length_of_string? hu
    simp only [List.length_cons]
    omega
  case h_14 c r' _ _ _ _ _ _ _ _ _ _ _ _ _ =>
    split at h
    · obtain ⟨u, hu, he⟩ := Option.map_eq_some_iff.1 h
      simp only [Prod.mk.injEq] at he
      obtain ⟨-, rfl⟩ := he
      have := length_dropWhile_le isNumberChar r'
      simp only [List.length_cons]
      omega
    · simp at h
  all_goals simp only [Option.some.injEq, Prod.mk.injEq, reduceCtorEq] at h
  all_goals (obtain ⟨-, rfl⟩ := h; simp only [List.length_cons]; omega)

/-- Whether a character may stand between tokens. -/
def isSpace (c : Char) : Bool := c == ' ' || c == '\t' || c == '\n' || c == '\r'

/-- All tokens of a text. -/
def lex? (s : List Char) : Option (List Token) :=
  if _h : (s.dropWhile isSpace).isEmpty then some []
  else
    match _ht : token? (s.dropWhile isSpace) with
    | none => none
    | some (t, r) => (lex? r).map (t :: ·)
termination_by s.length
decreasing_by
  have := length_of_token? _ht
  have := length_dropWhile_le isSpace s
  omega

end Json

end Quorum
