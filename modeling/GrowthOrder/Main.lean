import GrowthOrder.Command.Run
/-!
The program: calls on the files and streams of the machine.
-/
namespace GrowthOrder

/-- The reason that the system gives for a failure. -/
def FileError.ofSystem : IO.Error → FileError
  | .noFileOrDirectory .. => .notFound
  | .inappropriateType _ 20 _ => .notDirectory
  | .inappropriateType _ 21 _ => .isDirectory
  | cause => .other (toString cause)

namespace Console

def read (path : String) : IO (Except FileError (List UInt8)) := do
  try
    return .ok (← IO.FS.readBinFile path).toList
  catch cause => return .error (.ofSystem cause)

def write (path text : String) : IO Bool := do
  try
    IO.FS.writeFile path text
    return true
  catch _ => return false

def contains (path : String) : IO Bool := do
  if path.isEmpty then return false
  ((← IO.currentDir) / path).pathExists

/-- What stands at a path. A link is not followed. -/
def typeAt? (path : String) : IO (Option IO.FS.FileType) := do
  if path.isEmpty then return none
  try
    return some (← ((← IO.currentDir) / path).symlinkMetadata).type
  catch _ => return none

/-- The regular files below a directory. Links are not followed, and what cannot be listed is left
out. -/
partial def filesBelow (directory : String) : IO (List String) := do
  try
    let entries ← ((← IO.currentDir) / directory).readDir
    let files ← entries.toList.mapM fun entry => do
      let path := Path.join directory entry.fileName
      match ← typeAt? path with
      | some .file => return [path]
      | some .dir => filesBelow path
      | _ => return []
    return files.flatten
  catch _ => return []

/-- The regular files at and below a path. A link is followed only here, where the walk begins, and
only to a directory. -/
def walk (path : String) : IO (List String) := do
  match ← typeAt? path with
  | some .file => return [path]
  | some .dir | some .symlink => filesBelow path
  | _ => return []

/-- Reads lines up to the one that ends typed input. -/
partial def input (stream : IO.FS.Stream) (read : ByteArray) : IO ByteArray := do
  let chunk ← stream.read 4096
  if chunk.isEmpty then return read
  let read := read ++ chunk
  let isLast (line : List UInt8) : Bool :=
    (Utf8.decode? line).any fun text => Encoding.trimmed text.toList = Encoding.endMarker
  if (Encoding.lines read.toList).any isLast then return read
  input stream read

/-- The files and streams of the machine. -/
def host (colored : Bool) : Host IO where
  contains
  read
  walk
  write
  input := return (← input (← IO.getStdin) .empty).toList
  print := IO.print
  warn := IO.eprintln
  colored

end Console

end GrowthOrder

open GrowthOrder in
def main (words : List String) : IO UInt32 := do
  let ending ← (Console.host (← (← IO.getStdout).isTty)).call words
  match ending.failure with
  | some failure => IO.eprintln ("Error: " ++ failure.message)
  | none => if ending.exitCode = 2 then IO.eprint Host.usageText
  return ending.exitCode
