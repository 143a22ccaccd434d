import GrowthOrder.Path
import GrowthOrder.Encoding.Utf8
/-!
Files in directories. A path is followed name by name from the top directory: an empty segment and a
dot stay in a directory, two dots lead to the one above, and only directories can be gone through.
-/
namespace GrowthOrder

/-- Why a path cannot be read. -/
inductive FileError
  | notFound
  | notDirectory
  | isDirectory
  /-- Any other reason, in the words of the system. -/
  | other (text : String)
  deriving DecidableEq

def FileError.message : FileError → String
  | notFound => "No such file or directory (os error 2)"
  | notDirectory => "Not a directory (os error 20)"
  | isDirectory => "Is a directory (os error 21)"
  | other text => text

/-- A tree of directories and files. Each is known by the names that lead to it from the top, which
is always a directory. -/
structure FileTree where
  directories : List (List String) := []
  files : List (List String × List UInt8) := []

namespace FileTree

/-- What a place in the tree holds. -/
inductive Entry
  | directory
  | file (bytes : List UInt8)

def entry? (t : FileTree) (place : List String) : Option Entry :=
  match t.files.lookup place with
  | some bytes => some (.file bytes)
  | none => if place = [] ∨ place ∈ t.directories then some .directory else none

/-- Follows the segments of a path from a place. -/
def follow (t : FileTree) (place : List String) : List String → Except FileError (List String)
  | [] => .ok place
  | segment :: rest =>
    match t.entry? place with
    | none => .error .notFound
    | some (.file _) => .error .notDirectory
    | some .directory =>
      if segment = "" ∨ segment = "." then t.follow place rest
      else if segment = ".." then t.follow place.dropLast rest
      else t.follow (place ++ [segment]) rest

/-- The place that a path leads to, whether or not it holds anything. -/
def place (t : FileTree) (path : String) : Except FileError (List String) :=
  if path = "" then .error .notFound else t.follow [] (Path.segments path)

/-- What a path leads to. -/
def find (t : FileTree) (path : String) : Except FileError Entry := do
  match t.entry? (← t.place path) with
  | some entry => .ok entry
  | none => .error .notFound

def contains (t : FileTree) (path : String) : Bool :=
  (t.find path).isOk

/-- The bytes of the file at a path. -/
def read (t : FileTree) (path : String) : Except FileError (List UInt8) := do
  match ← t.find path with
  | .file bytes => .ok bytes
  | .directory => .error .isDirectory

/-- The names of the directory below which others are given, if they lead below it. -/
def below? (directory place : List String) : Option (List String) :=
  if directory.isPrefixOf place && directory.length < place.length then
    some (place.drop directory.length)
  else none

/-- The files at and below a path, each with the path on which it was met. -/
def walk (t : FileTree) (path : String) : List String :=
  match t.place path with
  | .error _ => []
  | .ok place =>
    match t.entry? place with
    | none => []
    | some (.file _) => [path]
    | some .directory =>
      (t.files.filterMap fun (file, _) => below? place file).map (·.foldl Path.join path)

/-- The tree with a file put at a place, instead of what was there. -/
def put (t : FileTree) (place : List String) (bytes : List UInt8) : FileTree :=
  { t with files := (place, bytes) :: t.files.filter (·.1 ≠ place) }

/-- Writes a file, in a directory that there is. -/
def write (t : FileTree) (path : String) (bytes : List UInt8) : Except FileError FileTree := do
  let place ← t.place path
  match t.entry? place with
  | some .directory => .error .isDirectory
  | _ => .ok (t.put place bytes)

/-- The tree with a directory and all those above it. -/
def makeDirectory (t : FileTree) (place : List String) : FileTree :=
  let above := (List.range place.length).map fun n => place.take (n + 1)
  { t with directories := above ++ t.directories }

/-- The names on a path, without those that stay in a directory. -/
def names (path : String) : List String :=
  (Path.segments path).filter fun segment => segment ≠ "" ∧ segment ≠ "."

/-- The tree with a directory at a path. -/
def withDirectory (t : FileTree) (path : String) : FileTree :=
  t.makeDirectory (names path)

/-- The tree with a file at a path and the directories that lead to it. -/
def withFile (t : FileTree) (path : String) (bytes : List UInt8) : FileTree :=
  (t.makeDirectory (names path).dropLast).put (names path) bytes

end FileTree

end GrowthOrder
