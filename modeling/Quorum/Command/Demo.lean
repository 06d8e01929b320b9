import Quorum.Command.Exit
import Quorum.Config.File
import Quorum.Society.Coordinator

/-!
# The demonstration

A payload travels from a client through the society and back: a society is dealt, the client
encrypts to it, a quorum decrypts, and the result is sealed for the client, who opens it.

## Main definitions

* `Demo` — what is demonstrated
* `Demo.run` — the demonstration
-/

namespace Quorum

/-- What is demonstrated. -/
structure Demo where
  /-- The number of parties, where it is not the configured one. -/
  parties : Option Int
  /-- The threshold, where it is not the configured one. -/
  threshold : Option Int
  /-- The payload. -/
  message : String
  /-- The path of the configuration. -/
  config : String

namespace Demo

/-- What the path of a configuration holds. -/
def place (files : Files) (path : String) : Config.Place :=
  match files.file? path with
  | some content => .file content
  | none => if files.isDirectory path then .directory else .nothing

/-- The configuration at its path. -/
def readConfig (d : Demo) (files : Files) : Outcome Config :=
  Config.load (Path.plain d.config) (place files d.config)

/-- The line for a configuration that is not read; other faults are not expected. -/
def configLine? : Fault → Option String
  | .configInvalid issues =>
    let count := if issues.length = 1 then "1 validation error"
      else issues.length.repr ++ " validation errors"
    some ((Fault.configInvalid issues).message ++ ": " ++ count ++ " for ConclaveConfig")
  | .configSyntax path => some (Fault.configSyntax path).message
  | .configShape path => some (Fault.configShape path).message
  | .configDirectory path => some (Fault.configDirectory path).message
  | _ => none

/-- Whether a fault is that of a bad number of parties or threshold. -/
def isThreshold : Fault → Bool
  | .noParties _ | .thresholdBounds _ _ => true
  | _ => false

/-- The ending for a fault: reported where it is expected. -/
def ended (shown : List Shown) (expected : Bool) (f : Fault) : Exit :=
  if expected then .failure shown f.message else .crashed shown (.fault f)

/-- The rows of a text in a table: a new row for every line of the text. -/
def cells (heading text : String) : List (List Cell) :=
  match text.splitOn "\n" with
  | [] => []
  | l :: ls => [.text heading, .text l] :: ls.map fun l => [.text "", .text l]

/-- The table of a round trip. -/
def table (d : Demo) (societyKey : Bytes) (blob recovered : Bytes) : Shown :=
  let text (b : Bytes) : String := String.ofList ((Utf8.decode? b).getD [])
  .table "Round trip" ["Step", "Value"] (cells "Plaintext" d.message ++
    cells "Society key" (String.ofList ((text societyKey).toList.take 48) ++ "...") ++
    cells "Sealed bytes" blob.length.repr ++ cells "Recovered" (text recovered) ++
    [[.text "Elapsed", .elapsed]])

/-- The demonstration after the society has been dealt. The client's channel key is selected by the
draw at `next`, and the draws after it encrypt. -/
def travel (d : Demo) (k : Coordinator) (ds : Directories) (next : Nat) (draw : Nat → Nat)
    (nonce : Nat → Bytes) : Exit :=
  let payload := Utf8.encode d.message
  let panel : Shown := .panel ["conclave demo",
    k.material.parties.repr ++ " actors, any " ++ k.material.quorum.repr ++ " can decrypt"]
  let prepared : Outcome (KeyPair × Directory × Bytes × Ciphertext) := do
    let alice ← Outcome.ofValue (KeyPair.ofDraw k.config.curve (draw next))
    let directory := (ds.get k.directory).publishPeer "alice" alice.publicBytes
    let societyKey ← directory.society
    let c ← Threshold.encrypt (.bytes societyKey) payload
      ⟨draw (next + 1), nonce 0, draw (next + 2)⟩
    .ok (alice, directory, societyKey, c)
  match prepared with
  | .error f => .crashed [panel] (.fault f)
  | .ok (alice, directory, societyKey, c) =>
    let shown := [panel,
      .line ("alice: encrypted " ++ payload.length.repr ++ " bytes to the society key")]
    -- From here on only the society and the client's own keys are used.
    match (k.decryptFor directory "demo" c "alice" none none (nonce 1)).1 with
    | .error f => ended shown f.isInsufficient f
    | .ok message =>
      let shown := shown ++ [.line "society: quorum reached, result sealed for alice"]
      match openSealed message alice k.config.derivation with
      | .error f => ended shown (f = .rejectedMessage) f
      | .ok recovered =>
        let shown := shown ++ [d.table societyKey message.blob recovered]
        if recovered = payload then .success (shown ++ [.line "✓ Round trip complete"])
        else .failure shown "Round trip mismatch"

/-- The demonstration. -/
def run (d : Demo) (files : Files) (draw : Nat → Nat) (nonce : Nat → Bytes) : Exit :=
  match d.readConfig files with
  | .error f =>
    match configLine? f with
    | some line => .failure [] line
    | none => .crashed [] (.fault f)
  | .ok config =>
    match Coordinator.create d.parties d.threshold config draw .none with
    | .error f => ended [] (isThreshold f) f
    | .ok (k, ds) => d.travel k ds (k.material.keys.threshold + 2) draw nonce

end Demo

end Quorum
