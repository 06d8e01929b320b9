import Quorum.Bytes
import Quorum.Text.Printable

/-!
# Quoted text

Text between quotes, as messages show it. The quote is the apostrophe, unless the text holds an
apostrophe and no double quote. The backslash, the quote and the characters that are not printable
are escaped.

## Main definitions

* `Quoted.quoteFor` — the quote that a text is put between
* `Quoted.escape` — what is written for one character
* `Quoted.encode` — the quoted text
-/

namespace Quorum

namespace Quoted

/-- The apostrophe. -/
def apostrophe : Char := Char.ofNat 39

/-- The double quote only for texts that hold an apostrophe and no double quote. -/
def quoteFor (s : List Char) : Char :=
  if s.contains apostrophe && !s.contains '"' then '"' else apostrophe

/-- The last `width` hexadecimal digits of a number. -/
def hexDigits : (width n : Nat) → List Char
  | 0, _ => []
  | width + 1, n => hexDigits width (n / 16) ++ [Bytes.hexDigit (n % 16)]

/-- A code point as a hexadecimal escape of two, four or eight digits. -/
def hexEscape (n : Nat) : List Char :=
  if n < 0x100 then '\\' :: 'x' :: hexDigits 2 n
  else if n < 0x10000 then '\\' :: 'u' :: hexDigits 4 n
  else '\\' :: 'U' :: hexDigits 8 n

/-- What is written for one character. -/
def escape (quote c : Char) : List Char :=
  if c = quote ∨ c = '\\' then ['\\', c]
  else if c = '\n' then ['\\', 'n']
  else if c = '\r' then ['\\', 'r']
  else if c = '\t' then ['\\', 't']
  else if isPrintable c then [c]
  else hexEscape c.toNat

/-- The quoted text of a list of characters. -/
def encodeChars (s : List Char) : List Char :=
  quoteFor s :: s.flatMap (escape (quoteFor s)) ++ [quoteFor s]

/-- The quoted text of a string. -/
def encode (s : String) : String := String.ofList (encodeChars s.toList)

end Quoted

end Quorum
