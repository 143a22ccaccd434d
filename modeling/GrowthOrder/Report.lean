import GrowthOrder.Json
import GrowthOrder.Token.Scan
import GrowthOrder.Tree.Draft
import GrowthOrder.Estimate.Time
import GrowthOrder.Estimate.Space
/-!
The report of one source text: its bounds, those of its functions, remarks for the reader, and how
much was read.
-/
namespace GrowthOrder

structure Report where
  grammar : Grammar
  time : TimeBound
  space : SpaceBound
  /-- The functions that are defined, with their times. -/
  functions : List (String × TimeBound)
  notes : List String
  tokenCount : Nat
  nodeCount : Nat
  unclosedScopes : Nat

namespace Report

/-- The remark on scopes that were not closed. -/
def openScopes (count : Nat) : String :=
  toString count ++ " scope(s) left open at end of input"

/-- The remarks on a result: an unknown time, recursion, fixed arrays, open scopes. -/
def notesOn (time : TimeBound) (space : SpaceBound) (unclosed : Nat) : List String :=
  (time.reason?.map Unresolved.message).toList ++
  (if space.recursive then ["recursion detected; call stack grows linearly"] else []) ++
  (space.footprint.map fun size => "fixed-size arrays occupy " ++ size.bigO).toList ++
  (if 0 < unclosed then [openScopes unclosed] else [])

/-- The two bounds on two lines. -/
def summary (r : Report) : String :=
  "Time Complexity: " ++ r.time.text ++ "\nSpace Complexity: " ++ r.space.text

def toJson (r : Report) : Json :=
  .object [
    ("grammar", .text r.grammar.key),
    ("time", .text r.time.text),
    ("space", .text r.space.text),
    ("functions", .array (r.functions.map fun (name, time) =>
      .object [("name", .text name), ("time", .text time.text)])),
    ("notes", .array (r.notes.map .text)),
    ("token_count", .number r.tokenCount),
    ("node_count", .number r.nodeCount),
    ("unclosed_scopes", .number r.unclosedScopes)]

end Report

namespace Dialect

def tokenize (d : Dialect) (source : String) : List Token :=
  d.grammar.tokenize source

/-- The report on a tree that was made from so many tokens. -/
def reportOn (d : Dialect) (tree : SyntaxTree) (tokenCount : Nat) :
    Except AnalysisError Report := do
  let time ← tree.time
  let space ← tree.space
  return {
    grammar := d.grammar
    time
    space
    functions := tree.functionTimes
    notes := Report.notesOn time space tree.unclosedScopes
    tokenCount
    nodeCount := tree.size
    unclosedScopes := tree.unclosedScopes }

/-- The report on a source text. -/
def analyze (d : Dialect) (source : String) : Except AnalysisError Report := do
  let tokens := d.tokenize source
  let tree ← SyntaxTree.ofTokens d tokens
  d.reportOn tree tokens.length

end Dialect

/-- The report on a source text in the grammar whose markers it shows. -/
def Report.ofSource (source : String) : Except AnalysisError Report := do
  let grammar ← Grammar.ofMarkers source
  Dialect.analyze { grammar } source

end GrowthOrder
