import Quorum.Command.Run
import Quorum.Seed

/-!
# The program

Reads the files that a command looks at, runs it, shows what it shows and writes what it writes.
-/

namespace Quorum

/-- The usage that is shown for `--help`, and for arguments that do not fit. -/
def usage : List String :=
  ["usage: conclave version", "       conclave demo [-n N] [-t T] [-m TEXT] [-c PATH] [-v]",
    "       conclave keygen [-n N] [-t T] [-o PATH]"]

/-- Reads what is at a path. -/
def look (files : Files) (path : String) : IO Files := do
  let p := (← IO.currentDir) / path
  if ← p.isDir then
    return { files with directories := Path.target path :: files.directories }
  else if ← p.pathExists then
    let content ← IO.FS.readBinFile p
    return { files with contents := files.contents.insert (Path.target path) content.toList }
  else return files

/-- Shows a piece. -/
def Shown.print (hundredths : Nat) : Shown → IO Unit
  | .line s => IO.println s
  | .panel ls => for l in ls do IO.println ("│ " ++ l ++ " │")
  | .table title headings rows => do
    IO.println title
    IO.println ("┃ " ++ String.intercalate " ┃ " headings ++ " ┃")
    for r in rows do
      IO.println ("│ " ++ String.intercalate " │ " (r.map (Cell.shown hundredths)) ++ " │")

/-- Writes a file. -/
def NewFile.write (f : NewFile) : IO Unit := do
  let p := (← IO.currentDir) / f.path
  IO.FS.writeBinFile p ⟨f.content.toArray⟩
  if f.secret then
    IO.setAccessRights p { user := { read := true, write := true } }

/-- Shows and writes what a command leaves behind, and gives its exit code. -/
def Exit.perform (e : Exit) (hundredths : Nat) : IO UInt32 := do
  for d in e.directories do IO.FS.createDirAll ((← IO.currentDir) / d)
  for f in e.files do f.write
  for s in e.shown do s.print hundredths
  match e.crash with
  | some (.fault f) => IO.eprintln f.message
  | some (.obstacle _) => IO.eprintln "the output directory cannot be made"
  | none => pure ()
  return UInt32.ofNat e.code

end Quorum

open Quorum in
/-- Runs the command of the arguments. -/
def main (args : List String) : IO UInt32 := do
  let usual := ((← IO.getEnv "HOME").getD "") ++ "/.conclave/conclave.yaml"
  match Command.ofArguments? usual args with
  | none =>
    for l in usage do IO.eprintln l
    return 2
  | some .help =>
    for l in usage do IO.println l
    return 0
  | some c =>
    let files ← c.paths.foldlM look ⟨.empty, []⟩
    let seed := (← IO.getRandomBytes 32).toList
    let start ← IO.monoMsNow
    let e := c.run files (Seed.draw seed) (Seed.nonce seed)
    if e.code != 0 then e.perform 0
    else
      let stop ← IO.monoMsNow
      e.perform ((stop - start) / 10)
