import GrowthOrder.Batch
import GrowthOrder.Output.Table
/-!
Writing results, as text for a reader or as JSON. Emphasis is by the colour codes of terminals, and
only where colours are wanted.
-/
namespace GrowthOrder

/-- How results are written. -/
structure Output where
  format : OutputFormat
  /-- Whether JSON is indented. -/
  pretty : Bool := false
  colored : Bool := false

/-- The looks that a text can be given. -/
inductive Emphasis
  | bold
  | heading
  | rule
  | success
  | warning
  deriving DecidableEq

/-- The number by which a terminal knows a look. -/
def Emphasis.code : Emphasis → String
  | bold => "1"
  | heading => "1;34"
  | rule => "34"
  | success => "32"
  | warning => "33"

/-- A text with a look, if colours are wanted. -/
def Emphasis.apply (e : Emphasis) (colored : Bool) (text : String) : String :=
  if colored then "\x1b[" ++ e.code ++ "m" ++ text ++ "\x1b[0m" else text

namespace Output

/-- A heading, underlined as far as it has bytes. -/
def header (o : Output) (text : String) : String :=
  match o.format with
  | .json => text ++ "\n"
  | .text =>
    let line := String.ofList (List.replicate text.utf8ByteSize '=')
    "\n" ++ Emphasis.heading.apply o.colored text ++ "\n" ++
      Emphasis.rule.apply o.colored line ++ "\n"

/-- An item of a list. -/
def item (text : String) : String :=
  "  • " ++ text ++ "\n"

/-- A JSON value, whatever the format. -/
def object (o : Output) (value : Json) : String :=
  value.render o.pretty ++ "\n"

/-- A heading and a list under it, unless the list is empty. -/
def titled (o : Output) (title : String) (items : List String) : String :=
  if items.isEmpty then "" else o.header title ++ String.join (items.map item)

def report (o : Output) (r : Report) : String :=
  match o.format with
  | .json => o.object r.toJson
  | .text =>
    "Time Complexity: " ++ Emphasis.bold.apply o.colored r.time.text ++ "\n" ++
    "Space Complexity: " ++ Emphasis.bold.apply o.colored r.space.text ++ "\n" ++
    o.titled "Functions" (r.functions.map fun (name, time) => name ++ ": " ++ time.text) ++
    o.titled "Notes" r.notes

/-- The table of a batch. -/
def batchTable (b : BatchReport) : Table where
  headers := ["File", "Grammar", "Time", "Space"]
  rows := b.files.map FileReport.cells

def batch (o : Output) (b : BatchReport) : String :=
  match o.format with
  | .json => o.object b.toJson
  | .text =>
    (batchTable b).render ++ "\n" ++ toString b.analyzed ++ " analyzed, " ++ toString b.failed ++
      " failed\n"

end Output

end GrowthOrder
