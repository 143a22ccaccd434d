import GrowthOrder.Command.Run
/-!
Runs in memory: the files are a tree, and what is printed is kept.
-/
namespace GrowthOrder

structure Session where
  files : FileTree := {}
  /-- What can be read from standard input. -/
  input : List UInt8 := []
  printed : String := ""
  warnings : List String := []

namespace Session

/-- The host whose files and streams are those of the session. -/
def host : Host (StateM Session) where
  contains path := return (← get).files.contains path
  read path := return (← get).files.read path
  walk path := return (← get).files.walk path
  write path text := do
    let s ← get
    match s.files.write path (Utf8.encode text) with
    | .ok files =>
      set { s with files }
      return true
    | .error _ => return false
  input := return (← get).input
  print text := modify fun s => { s with printed := s.printed ++ text }
  warn text := modify fun s => { s with warnings := s.warnings ++ [text] }

/-- Makes a call in the session. -/
def call (s : Session) (words : List String) : Host.Ending × Session :=
  host.call words s

end Session

end GrowthOrder
