import Quorum.Config
import Quorum.Yaml.Writer

/-!
# Saving a configuration

Every setting is written, section by section.

## Main definitions

* `Config.numberText` — the text of a number that reads back as a number
* `Config.outline` — the sections with their settings
* `Config.save` — the text of a configuration file
-/

namespace Quorum

namespace Config

/-- The text of a number that reads back as a number: an exponent follows a point. -/
def numberText (x : Binary64) : String :=
  if x.isInfinite then (if x.isNegative then "-.inf" else ".inf")
  else if x.isNaN then ".nan"
  else
    let s := x.text.toList
    if s.contains '.' then x.text
    else String.ofList (s.takeWhile (· != 'e') ++
      (if s.contains 'e' then ".0".toList else []) ++ s.dropWhile (· != 'e'))

/-- The sections with their settings. -/
def outline (c : Config) : Yaml.Outline :=
  let number (n : Nat) : Yaml.Outline := .scalar .int n.repr
  let words (s : String) : Yaml.Outline := .scalar .str s
  .mapping [
    ("society", .mapping [("parties", number c.parties), ("threshold", number c.threshold)]),
    ("coordinator", .mapping [("fanout_margin", number c.margin),
      ("quorum_timeout", .scalar .float (numberText c.timeout))]),
    ("channel", .mapping [("curve", words c.curve.name),
      ("key_derivation", words c.derivation.name)]),
    ("logging", .mapping [("level", words c.level.name)]),
    ("peers", .mapping (c.peers.entries.map fun e => (e.1, words e.2)))]

/-- The text of a configuration file. -/
def save (c : Config) : String := String.ofList c.outline.text

end Config

end Quorum
