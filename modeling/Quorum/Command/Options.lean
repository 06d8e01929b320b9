import Quorum.Lenient
import Quorum.Text.Digit

/-!
# Command-line options

Arguments are options and other words. A long option stands behind two hyphens and takes its value
behind an equals sign or from the next argument; short options stand behind one hyphen, several of
them may share it, and a value may follow directly. Two hyphens on their own end the options.

## Main definitions

* `OptionKind` — an option, its spellings and whether it takes a value
* `Arguments` — the options given, and the other words
* `Arguments.read?` — reads arguments, if they are well-formed
* `optionInt?` — the integer that an option value writes
-/

namespace Quorum

/-- An option: its spellings, the first of which names it, and whether it takes a value. -/
structure OptionKind where
  name : String
  /-- The other spellings. -/
  others : List String
  /-- Whether a value follows. -/
  takesValue : Bool

/-- Whether an option has a spelling. -/
def OptionKind.isSpelled (o : OptionKind) (s : String) : Bool := o.name == s || o.others.contains s

/-- The options given, each with its value, in order, and the other words. -/
structure Arguments where
  /-- The options by name, with their values. -/
  options : List (String × String)
  /-- The other words. -/
  words : List String

namespace Arguments

/-- Another word in front. -/
def withWord (word : String) (a : Arguments) : Arguments := { a with words := word :: a.words }

/-- Whether an option is given. -/
def has (a : Arguments) (name : String) : Bool := a.options.any fun e => e.1 == name

/-- The value of an option: the last one given. -/
def value? (a : Arguments) (name : String) : Option String :=
  (a.options.reverse.find? fun e => e.1 == name).map Prod.snd

/-- The short options that share a hyphen, with the arguments left after them. -/
def cluster? (kinds : List OptionKind) :
    List Char → List String → Option (List (String × String) × List String)
  | [], rest => some ([], rest)
  | c :: cs, rest => do
    let kind ← kinds.find? fun o => o.isSpelled (String.ofList ['-', c])
    if !kind.takesValue then
      let (options, rest) ← cluster? kinds cs rest
      some ((kind.name, "") :: options, rest)
    -- The value follows directly, or else in the next argument.
    else if !cs.isEmpty then some ([(kind.name, String.ofList cs)], rest)
    else
      match rest with
      | v :: rest => some ([(kind.name, v)], rest)
      | [] => none

/-- A long option with what stands behind its equals sign, and the arguments left after it. -/
def long? (kinds : List OptionKind) (arg : List Char) (rest : List String) :
    Option (List (String × String) × List String) := do
  let spelling := String.ofList (arg.takeWhile (· != '='))
  let attached := arg.dropWhile (· != '=')
  let kind ← kinds.find? fun o => spelling.length > 2 && o.isSpelled spelling
  match kind.takesValue, attached, rest with
  | true, _ :: v, rest => some ([(kind.name, String.ofList v)], rest)
  | true, [], v :: rest => some ([(kind.name, v)], rest)
  | false, [], rest => some ([(kind.name, "")], rest)
  | _, _, _ => none

/-- The options of one argument, and the arguments left after it. -/
def option? (kinds : List OptionKind) (arg : List Char) (rest : List String) :
    Option (List (String × String) × List String) :=
  if arg.take 2 = ['-', '-'] then long? kinds arg rest else cluster? kinds arg.tail rest

/-- Reads arguments. The fuel bounds the number of steps, each of which takes an argument away. -/
def readFrom? (kinds : List OptionKind) (mixed : Bool) :
    (fuel : Nat) → List String → Option Arguments
  | 0, args => some ⟨[], args⟩
  | _, [] => some ⟨[], []⟩
  | fuel + 1, arg :: rest =>
    if arg = "--" then some ⟨[], rest⟩
    else if arg.startsWith "-" && arg != "-" then do
      let (options, rest) ← option? kinds arg.toList rest
      let a ← readFrom? kinds mixed fuel rest
      some { a with options := options ++ a.options }
    else if mixed then (readFrom? kinds mixed fuel rest).map (withWord arg)
    else some ⟨[], arg :: rest⟩

/-- Reads arguments. `mixed` allows options behind the first word. -/
def read? (kinds : List OptionKind) (mixed : Bool) (args : List String) : Option Arguments :=
  readFrom? kinds mixed (args.length + 1) args

end Arguments

/-- The integer that an option value writes: blanks around it, a sign, single underscores between
digits and the digits of any script are allowed. -/
def optionInt? (s : String) : Option Int := do
  let (negative, body) := Lenient.sign (Lenient.trim (s.toList.map Digit.plain))
  let ds ← Lenient.dropUnderscores? body
  if ds.isEmpty || !ds.all Char.isDigit || 4300 < ds.length then none
  else some (if negative then -(Lenient.digitsValue ds : Int) else Lenient.digitsValue ds)

end Quorum
