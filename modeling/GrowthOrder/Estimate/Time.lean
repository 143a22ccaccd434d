import GrowthOrder.Bound
import GrowthOrder.Error
import GrowthOrder.Tree.Basic
import GrowthOrder.Estimate.Decrement
/-!
Bounding the running time. A scope is as slow as the slowest of its parts, a loop is one step slower
than its body, a call of another function is unknown, and a call of the function itself is judged by
all such calls in the function: one that decreases its argument by one is linear, two or more are
exponential.
-/
namespace GrowthOrder.SyntaxTree

/-- The calls of a function by its name at or below a node, from left to right. Definitions inside
are left out. -/
def selfCallsAt (t : SyntaxTree) (name : String) (id : Nat) : List Nat :=
  t.fold (fun id below =>
    match t.kind id with
    | .functionDeclaration _ => []
    | .recursiveCall callee => (if callee = name then [id] else []) ++ below.flatMap (·.2)
    | _ => below.flatMap (·.2)) id

/-- The calls that a function makes to itself. -/
def selfCalls (t : SyntaxTree) (function : Nat) (name : String) : List Nat :=
  (t.children function).flatMap (t.selfCallsAt name)

/-- The time of a function's calls to itself, by the texts of these calls. -/
def recursionBound (name : String) : List String → TimeBound
  | [] => .unknown (.recursion name)
  | [call] => if isDecrementing name call then .known .linear else .unknown (.recursion name)
  | _ :: _ :: _ => .known .exponential

/-- The time of a recursive call that stands at a node. -/
def recursionTime (t : SyntaxTree) (id : Nat) (name : String) : TimeBound :=
  match t.enclosingFunction? id with
  | none => .unknown (.recursion name)
  | some function =>
    let name := ((t.kind function).functionName?).getD name
    recursionBound name ((t.selfCalls function name).map t.text)

/-- The time of a node. -/
def timeAt (t : SyntaxTree) (id : Nat) : TimeBound :=
  t.fold (fun id below =>
    let parts := (below.map (·.2)).foldl TimeBound.dominant TimeBound.constant
    match t.kind id with
    | .program | .block | .conditional | .functionDeclaration _ => parts
    | .loop _ _ => parts.inLoop
    | .recursiveCall name => t.recursionTime id name
    | .functionCall name => .unknown (.call name)
    | _ => .constant) id

/-- The time of the whole tree. -/
def time (t : SyntaxTree) : Except AnalysisError TimeBound :=
  match t.root? with
  | none => .error .emptyTree
  | some root => .ok (t.timeAt root)

/-- The times of the functions that are defined, in the order of their numbers. -/
def functionTimes (t : SyntaxTree) : List (String × TimeBound) :=
  (List.range t.size).filterMap fun id =>
    match t.kind id with
    | .functionDeclaration name => some (name, t.timeAt id)
    | _ => none

end GrowthOrder.SyntaxTree
