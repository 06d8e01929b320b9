import Quorum.Command.Demo
import Quorum.Command.Keygen
import Quorum.Command.Options

/-!
# The commands

The commands with their options, read from arguments.

## Main definitions

* `Command` — what arguments ask for
* `Command.ofArguments?` — the command of arguments, if they fit
* `Command.run` — runs a command
-/

namespace Quorum

/-- What arguments ask for. -/
inductive Command where
  /-- The options. -/
  | help
  | version
  | demo (d : Demo)
  /-- Dealing keys into files. -/
  | keygen (g : Keygen)

namespace Command

/-- The version of the program. -/
def versionText : String := "0.1.0"

/-- The option that asks for the options. -/
def helpOption : OptionKind := ⟨"--help", [], false⟩

/-- The options of the demonstration. -/
def demoOptions : List OptionKind :=
  [⟨"--parties", ["-n"], true⟩, ⟨"--threshold", ["-t"], true⟩, ⟨"--message", ["-m"], true⟩,
    ⟨"--config", ["-c"], true⟩, ⟨"--verbose", ["-v"], false⟩, helpOption]

/-- The options of dealing keys into files. -/
def keygenOptions : List OptionKind :=
  [⟨"--parties", ["-n"], true⟩, ⟨"--threshold", ["-t"], true⟩, ⟨"--output", ["-o"], true⟩,
    helpOption]

/-- The value of an option that takes an integer: `none` where it is not given; no value at all
where something else is given. -/
def intOption? (a : Arguments) (name : String) : Option (Option Int) :=
  match a.value? name with
  | none => some none
  | some s => (optionInt? s).map some

/-- The command that has its options and no other words; asking for the options comes first. -/
def withOptions? (kinds : List OptionKind) (args : List String)
    (make : Arguments → Option Command) : Option Command := do
  let a ← Arguments.read? kinds true args
  if a.has helpOption.name then some .help
  else if !a.words.isEmpty then none
  else make a

/-- The demonstration with the given options; `usual` is the path of the usual configuration. -/
def demoOf? (usual : String) (a : Arguments) : Option Command := do
  let parties ← intOption? a "--parties"
  let threshold ← intOption? a "--threshold"
  some (.demo ⟨parties, threshold, (a.value? "--message").getD "hello",
    (a.value? "--config").getD usual⟩)

/-- Dealing keys with the given options. -/
def keygenOf? (a : Arguments) : Option Command := do
  let parties ← intOption? a "--parties"
  let threshold ← intOption? a "--threshold"
  some (.keygen ⟨parties.getD 3, threshold.getD 1, (a.value? "--output").getD "conclave-keys"⟩)

/-- The command of arguments, if they fit; `usual` is the path of the usual configuration. -/
def ofArguments? (usual : String) (args : List String) : Option Command := do
  let a ← Arguments.read? [helpOption] false args
  if a.has helpOption.name then some .help
  else
    match a.words with
    | "version" :: rest => withOptions? [helpOption] rest fun _ => some .version
    | "demo" :: rest => withOptions? demoOptions rest (demoOf? usual)
    | "keygen" :: rest => withOptions? keygenOptions rest keygenOf?
    | _ => none

/-- Runs a command on files, with the given draws. -/
def run (files : Files) (draw : Nat → Nat) (nonce : Nat → Bytes) : Command → Exit
  | help => .success []
  | version => .success [.line ("Conclave version " ++ versionText)]
  | demo d => d.run files draw nonce
  | keygen g => g.run files draw

/-- The paths that a command looks at, and the directories on the way to them. -/
def paths : Command → List String
  | help | version => []
  | demo d => Path.chain d.config
  | keygen g => g.paths ++ Path.chain g.output ++ g.directories

end Command

end Quorum
