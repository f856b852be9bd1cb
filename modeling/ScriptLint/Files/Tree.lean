import ScriptLint.Files.ReadError

/-!
# Files in memory

A tree of directories and files, in which paths are looked up step by step.

* `FileTree.put`, `FileTree.makeDirectory`: trees with one more file or directory, and the
  directories above it.
* `FileTree.resolve`: the place that a path names.
* `FileTree.read`: the text of the file that a path names.
-/

namespace ScriptLint

/-- The names from the root to a file or directory. -/
abbrev FilePlace := List String

/-- The bytes of files and the directories that are known by themselves. A place above a file or a
directory is a directory as well. -/
structure FileTree where
  files : List (FilePlace × List UInt8) := []
  directories : List FilePlace := []
deriving Repr

namespace FileTree

/-- The names in a path, empty ones between slashes too. -/
def steps (path : String) : List String :=
  path.splitOn "/"

/-- The place that a path without `..` names, seen from another place. -/
def placeOf (here : FilePlace) (path : String) : FilePlace :=
  here ++ (steps path).filter fun name => name ≠ "" && name ≠ "."

def put (t : FileTree) (place : FilePlace) (bytes : List UInt8) : FileTree :=
  { t with files := (place, bytes) :: t.files }

def makeDirectory (t : FileTree) (place : FilePlace) : FileTree :=
  { t with directories := place :: t.directories }

/-- The bytes of the file at a place. -/
def file? (t : FileTree) (place : FilePlace) : Option (List UInt8) :=
  t.files.lookup place

def isDirectory (t : FileTree) (place : FilePlace) : Bool :=
  place = [] || t.directories.any place.isPrefixOf ||
    t.files.any fun f => place.isPrefixOf f.1 && place ≠ f.1

/-- Goes on from a place that exists. Every step, also one that stays where it is, needs a
directory to start from. -/
def walk (t : FileTree) : FilePlace → List String → Except ReadError FilePlace
  | here, [] => .ok here
  | here, name :: rest =>
    if !t.isDirectory here then .error .notDirectory
    else if name = "" || name = "." then t.walk here rest
    else if name = ".." then t.walk here.dropLast rest
    else
      let next := here ++ [name]
      if t.isDirectory next || (t.file? next).isSome then t.walk next rest
      else .error .missing

/-- The place that a path names, from a working directory. -/
def resolve (t : FileTree) (here : FilePlace) (path : String) : Except ReadError FilePlace :=
  if path = "" then .error .missing
  else if path.startsWith "/" then t.walk [] (steps path)
  else t.walk here (steps path)

/-- The text of the file that a path names. -/
def read (t : FileTree) (here : FilePlace) (path : String) : Except ReadError String := do
  let place ← t.resolve here path
  match t.file? place with
  | some bytes => ReadError.decode bytes
  | none => .error .isDirectory

end FileTree

end ScriptLint
