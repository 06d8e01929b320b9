import Quorum.Config.Reader
import Quorum.Yaml.Value

/-!
# Configuration files

A configuration is kept in a YAML file. Where there is no file, or nothing in it, everything has its
default. Files are read by whatever gives the value of the document in a file; of its failures only
broken rules of the format are told apart from others, which pass through.

## Main definitions

* `lineFeeds` — a text with single line feeds at its line ends
* `Config.Place` — what a path holds
* `Config.Unread`, `Config.Stop` — why a file is not read, and what stops loading
* `Config.ofValue` — the configuration that the value of a document gives
* `Config.loadWith` — the configuration at a path, with a given reader of files
* `Config.load` — the configuration at a path
-/

namespace Quorum

/-- A text with a single line feed for every line end of one or two characters. -/
def lineFeeds : List Char → List Char
  | '\r' :: '\n' :: r => '\n' :: lineFeeds r
  | c :: r => (if c = '\r' then '\n' else c) :: lineFeeds r
  | [] => []

namespace Config

/-- What a path holds. -/
inductive Place where
  | nothing
  | directory
  | file (content : Bytes)

/-- Why a file is not read. -/
inductive Unread (ε : Type) where
  /-- Its document breaks a rule of the format. -/
  | malformed
  /-- Anything else. -/
  | other (cause : ε)

/-- What stops loading. -/
inductive Stop (ε : Type) where
  /-- A fault that is found in loading. -/
  | fault (f : Fault)
  /-- A failure of reading that passes through. -/
  | reading (cause : ε)

namespace Stop

/-- Whether loading was stopped by a fault of the configuration. -/
def isConfig {ε : Type} : Stop ε → Bool
  | fault f => f.isConfig
  | reading _ => false

/-- What stopped loading, where the failures of reading are faults too. -/
def toFault : Stop Fault → Fault
  | fault f => f
  | reading f => f

end Stop

/-- Whether a value is text. -/
def isText : Datum → Bool
  | .text _ => true
  | _ => false

/-- The configuration that the value of a document gives: a mapping whose keys are texts, or no
value at all. -/
def ofValue (path : String) : Datum → Outcome Config
  | .null => .ok .default
  | .mapping entries =>
    if entries.all fun e => isText e.1 then
      match ofEntries entries with
      | .ok c => .ok c
      | .error issues => .error (.configInvalid issues)
    else .error .keyNotText
  | _ => .error (.configShape path)

/-- The configuration at a path, where `read` gives the value of the document in a file. -/
def loadWith {ε : Type} (read : Bytes → Except (Unread ε) Datum) (path : String) :
    Place → Except (Stop ε) Config
  | .nothing => .ok .default
  | .directory => .error (.fault (.configDirectory path))
  | .file content =>
    match read content with
    | .ok v => (ofValue path v).mapError .fault
    | .error .malformed => .error (.fault (.configSyntax path))
    | .error (.other cause) => .error (.reading cause)

/-- The value of the document in a file. All of the file is decoded before any of it is read, so
bytes that encode no text are met before the failures of the document. -/
def readFile (content : Bytes) : Except (Unread Fault) Datum :=
  match Utf8.decode? content with
  | some s =>
    match Yaml.load (lineFeeds s) with
    | .ok v => .ok v
    | .error .malformed => .error .malformed
    | .error f => .error (.other (.configSpelling f))
  | none => .error (.other .undecodable)

/-- The configuration at a path. -/
def load (path : String) (place : Place) : Outcome Config :=
  (loadWith readFile path place).mapError Stop.toFault

end Config

end Quorum
