import GrowthOrder.Grammar
/-!
Paths. A path is a text whose parts are divided by slashes; repeated slashes and dots that stand for
the directory itself do not count, except for a dot at the very beginning. Paths are ordered part by
part, not by their text. A name is a text in UTF-8: a system also takes names of other bytes, and
there are no paths for them here.
-/
namespace GrowthOrder.Path

/-- A part of a path. -/
inductive Part
  | root
  | current
  | parent
  | name (text : String)
  deriving DecidableEq

/-- The texts between the slashes of a path. -/
def segments (path : String) : List String :=
  (path.toList.splitOn '/').map String.ofList

/-- A segment as a part, unless it does not count. -/
def Part.ofSegment? (segment : String) : Option Part :=
  if segment = "" ∨ segment = "." then none
  else if segment = ".." then some .parent
  else some (.name segment)

def parts (path : String) : List Part :=
  match segments path with
  | [] => []
  | first :: rest =>
    let lead :=
      if first = "" ∧ rest ≠ [] then some Part.root
      else if first = "." then some Part.current
      else Part.ofSegment? first
    lead.toList ++ rest.filterMap Part.ofSegment?

/-- The text behind the last dot of a name, unless that dot is its first character. -/
def extensionOf? (name : List Char) : Option String :=
  let tail := name.reverse.takeWhile (· ≠ '.')
  if tail.length + 1 < name.length then some (String.ofList tail.reverse) else none

/-- The extension of the last part, if that part is a name. -/
def extension? (path : String) : Option String :=
  match (parts path).getLast? with
  | some (.name text) => extensionOf? text.toList
  | _ => none

/-- The grammar that the extension of a path stands for. -/
def grammar? (path : String) : Option Grammar :=
  (extension? path).bind Grammar.ofExtension?

/-- The place of a part's kind in the order of parts. -/
def Part.rank : Part → Nat
  | root => 0
  | current => 1
  | parent => 2
  | name _ => 3

def Part.text : Part → String
  | name text => text
  | _ => ""

/-- Whether a part comes before another: by kind, then by text. -/
def Part.before (a b : Part) : Bool :=
  a.rank < b.rank || (a.rank = b.rank && a.text < b.text)

/-- Whether a list of parts comes before another or is equal to it: the first difference decides. -/
def notAfter : List Part → List Part → Bool
  | [], _ => true
  | _ :: _, [] => false
  | a :: as, b :: bs => a.before b || (a = b && notAfter as bs)

/-- The order of paths. -/
def le (a b : String) : Bool :=
  notAfter (parts a) (parts b)

/-- The path of a name in a directory. -/
def join (directory name : String) : String :=
  if directory = "" ∨ directory.toList.getLast? = some '/' then directory ++ name
  else directory ++ "/" ++ name

end GrowthOrder.Path
