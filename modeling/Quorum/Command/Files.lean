import Quorum.Bytes
import Quorum.Table

/-!
# Files by path

The files and directories that a command works with, by paths relative to the place it works at. A
directory is there when it is listed or something is in it. A path may lead out of a directory
again; as long as that directory is not there, nothing is found behind it, but once the directories
of the path are made, it leads to a place that may hold something already.

## Main definitions

* `Path.plain` — the plain spelling of a path
* `Path.inside` — the path of a file in a directory
* `Path.target` — the place that a path leads to
* `Files` — files by place, and directories
* `Files.passable` — whether the directories that a path leads out of are there
* `Files.isTaken` — whether there is anything at a place
* `Files.file?`, `Files.isDirectory`, `Files.holds` — what is found at a path
* `Files.write` — the files after one more has been written
* `Files.obstacle?` — what keeps a directory from being made
-/

namespace Quorum

namespace Path

/-- The parts of a path, without empty parts and without parts that stay in place. -/
def parts (s : String) : List String :=
  ((s.toList.splitOn '/').map String.ofList).filter fun p => p != "" && p != "."

/-- Whether a path starts at the root. -/
def isAbsolute (s : String) : Bool := s.toList.head? == some '/'

/-- The path with the given parts, from the root or from the place where a command works. -/
def spelled (absolute : Bool) (ps : List String) : String :=
  let body := String.intercalate "/" ps
  if absolute then "/" ++ body else if body == "" then "." else body

/-- The plain spelling of a path. -/
def plain (s : String) : String := spelled (isAbsolute s) (parts s)

/-- The path of a file in a directory. -/
def inside (directory file : String) : String :=
  spelled (isAbsolute directory) (parts directory ++ parts file)

/-- The directories above a path and the path itself, from the outermost on. -/
def chain (s : String) : List String :=
  (parts s).foldl (fun ps p =>
    ps ++ [match ps.getLast? with
      | some q => q ++ "/" ++ p
      | none => if isAbsolute s then "/" ++ p else p]) []

/-- One part further than a place: the part `..` leads out of the last directory. Nothing is above
the root, and above the place where a command works the parts are kept. -/
def next (absolute : Bool) (place : List String) (part : String) : List String :=
  if part != ".." then place ++ [part]
  else if place.isEmpty then if absolute then [] else [".."]
  else if place.getLast? == some ".." then place ++ [".."]
  else place.dropLast

/-- The place that a path leads to, if all directories on the way are there. -/
def target (s : String) : String :=
  spelled (isAbsolute s) ((parts s).foldl (next (isAbsolute s)) [])

/-- The places that parts lead out of again, from a place on. -/
def departures (absolute : Bool) : (place : List String) → List String → List (List String)
  | _, [] => []
  | place, part :: rest =>
    let later := departures absolute (next absolute place part) rest
    if part == ".." then place :: later else later

end Path

/-- Files by place, and directories. -/
structure Files where
  /-- The contents by place. -/
  contents : Table String Bytes
  /-- The places of directories that may be empty. -/
  directories : List String

namespace Files

/-- Whether there is a directory at a place. -/
def hasDirectory (f : Files) (place : String) : Bool :=
  place == "." || place == "/" || place == ".." || "/..".toList.isSuffixOf place.toList ||
    f.directories.contains place ||
    f.contents.keys.any fun k => (place ++ "/").toList.isPrefixOf k.toList

/-- Whether there is anything at a place. -/
def isTaken (f : Files) (place : String) : Bool := f.contents.contains place || f.hasDirectory place

/-- Whether the directories that a path leads out of are there. -/
def passable (f : Files) (path : String) : Bool :=
  (Path.departures (Path.isAbsolute path) [] (Path.parts path)).all fun place =>
    f.hasDirectory (Path.spelled (Path.isAbsolute path) place)

/-- The file that is found at a path, if there is one. -/
def file? (f : Files) (path : String) : Option Bytes :=
  if f.passable path then f.contents.get? (Path.target path) else none

/-- Whether a directory is found at a path. -/
def isDirectory (f : Files) (path : String) : Bool :=
  f.passable path && f.hasDirectory (Path.target path)

/-- Whether anything is found at a path. -/
def holds (f : Files) (path : String) : Bool := f.passable path && f.isTaken (Path.target path)

/-- The files after a file has been written at a place. -/
def write (f : Files) (place : String) (content : Bytes) : Files :=
  { f with contents := f.contents.insert place content }

/-- What keeps a directory from being made. -/
inductive Obstacle where
  /-- A file is at its path, or at a path that is made on the way. -/
  | occupied
  /-- A file is at the path of a directory above it. -/
  | notDirectory
deriving DecidableEq, Repr

/-- What keeps a directory and those above it from being made at a path. -/
def obstacle? (f : Files) (path : String) : Option Obstacle :=
  ((Path.chain path).find? fun p => f.contents.contains (Path.target p)).map fun p =>
    -- Behind a directory that had to be made, a file is met as something to be made itself.
    if p == Path.plain path || !f.passable p then .occupied else .notDirectory

end Files

end Quorum
