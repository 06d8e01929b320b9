import Quorum.Command.Exit
import Quorum.Society.Dealer

/-!
# Dealing keys into files

A society key is dealt, and the published key set, the material and one share for each actor are
written to files of their own. Nothing is overwritten.

## Main definitions

* `Keygen` — what is dealt, and where to
* `Keygen.run` — deals and writes
-/

namespace Quorum

/-- What is dealt, and where to. -/
structure Keygen where
  /-- The number of parties. -/
  parties : Int
  threshold : Int
  /-- The directory for the files. -/
  output : String

namespace Keygen

/-- The path of the published key set. -/
def publicPath (g : Keygen) : String := Path.inside g.output "public_key.json"

/-- The path of the material. -/
def societyPath (g : Keygen) : String := Path.inside g.output "society.json"

/-- The name of the file for the share of an actor. -/
def shareName (i : Nat) : String := "actor_" ++ i.repr ++ ".json"

/-- The path of the share of an actor. -/
def sharePath (g : Keygen) (i : Nat) : String := Path.inside g.output (shareName i)

/-- The paths of the shares. -/
def sharePaths (g : Keygen) : List String := (List.range g.parties.toNat).map g.sharePath

/-- The paths that must be free, in the order in which they are looked at. -/
def paths (g : Keygen) : List String := g.societyPath :: g.publicPath :: g.sharePaths

/-- The table of the files. -/
def table (g : Keygen) : Shown :=
  .table "Society key" ["File", "Contents"]
    ([.text g.publicPath, .text "published key set (give to clients)"] ::
      [.text g.societyPath, .text "key material for the coordinator"] ::
      g.sharePaths.map fun p => [.text p, .text "secret share (give to one actor only)"])

/-- The directories for the files: the output directory and those above it. -/
def directories (g : Keygen) : List String := (Path.chain g.output).map Path.target

/-- The files of a society. -/
def files (g : Keygen) (m : Material) (shares : List KeyShare) : List NewFile :=
  ⟨Path.target g.publicPath, m.keys.toBytes, false⟩ ::
    ⟨Path.target g.societyPath, Utf8.encode m.toJson.indented, false⟩ ::
    g.sharePaths.zipWith (fun p s => ⟨Path.target p, Utf8.encode s.handOver, true⟩) shares

/-- Deals and writes. -/
def run (g : Keygen) (existing : Files) (draw : Nat → Nat) : Exit :=
  match g.paths.find? existing.holds with
  | some p => .failure [] ("Refusing to overwrite " ++ p)
  | none =>
    match Dealer.deal g.parties g.threshold draw with
    | .error f =>
      match f with
      | .noParties _ | .thresholdBounds _ _ => .failure [] f.message
      | f => .crashed [] (.fault f)
    | .ok (m, shares) =>
      match existing.obstacle? g.output with
      | some o => .crashed [] (.obstacle o)
      | none =>
        let shown := [g.table, .line ("✓ Dealt " ++ m.parties.repr ++ " shares, any " ++
          m.quorum.repr ++ " can decrypt")]
        { Exit.success shown with directories := g.directories, files := g.files m shares }

end Keygen

end Quorum
