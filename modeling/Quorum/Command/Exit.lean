import Quorum.Command.Files
import Quorum.Fault

/-!
# What a command leaves behind

A command shows lines and tables, writes files, and ends well, with a failure that it reports, or
with one that it does not expect.

## Main definitions

* `Cell` — what stands in a cell of a table
* `Shown` — a piece of what a command shows
* `NewFile` — a file that a command writes
* `Crash` — a failure that the command does not expect
* `Exit` — what a command leaves behind
* `Exit.leaves` — the files after a command
-/

namespace Quorum

/-- What stands in a cell of a table. -/
inductive Cell where
  | text (s : String)
  /-- How long the command took. -/
  | elapsed
deriving DecidableEq, Repr

/-- The text of a cell, for a command that took the given number of hundredths of a second. -/
def Cell.shown (hundredths : Nat) : Cell → String
  | text s => s
  | elapsed =>
    (hundredths / 100).repr ++ "." ++ (hundredths / 10 % 10).repr ++ (hundredths % 10).repr ++ "s"

/-- A piece of what a command shows. -/
inductive Shown where
  | line (text : String)
  /-- Lines in a frame. -/
  | panel (lines : List String)
  /-- A table with its title, its headings and its rows. -/
  | table (title : String) (headings : List String) (rows : List (List Cell))
deriving DecidableEq, Repr

/-- A failure that a command does not expect. -/
inductive Crash where
  | fault (f : Fault)
  /-- A directory that cannot be made. -/
  | obstacle (o : Files.Obstacle)
deriving DecidableEq, Repr

/-- A file that a command writes. -/
structure NewFile where
  /-- The place of the file. -/
  path : String
  content : Bytes
  /-- Whether only its owner may read it. -/
  secret : Bool

/-- What a command leaves behind. -/
structure Exit where
  /-- The exit code: 0 when all went well, 1 after a failure, 2 for arguments that do not fit. -/
  code : Nat
  /-- What is shown, in order. -/
  shown : List Shown
  /-- The places of the directories made. -/
  directories : List String
  /-- The files written. -/
  files : List NewFile
  /-- The failure that was not expected. -/
  crash : Option Crash

namespace Exit

/-- The files after a command: what was there before, and what it made and wrote. -/
def leaves (e : Exit) (before : Files) : Files :=
  e.files.foldl (fun f n => f.write n.path n.content)
    { before with directories := e.directories ++ before.directories }

/-- All went well. -/
def success (shown : List Shown) : Exit := ⟨0, shown, [], [], none⟩

/-- A failure that is reported in a line. -/
def failure (shown : List Shown) (message : String) : Exit :=
  ⟨1, shown ++ [.line ("✗ " ++ message)], [], [], none⟩

/-- A failure that was not expected. -/
def crashed (shown : List Shown) (c : Crash) : Exit := ⟨1, shown, [], [], some c⟩

/-- Arguments that do not fit. -/
def misused : Exit := ⟨2, [], [], [], none⟩

end Exit

end Quorum
