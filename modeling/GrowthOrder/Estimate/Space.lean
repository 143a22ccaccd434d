import GrowthOrder.Bound
import GrowthOrder.Error
import GrowthOrder.Tree.Basic
/-!
Bounding the memory. A walk over the tree lists what takes memory, from left to right: arrays,
instances, and functions entered while they are running. The bound follows from that list: the
largest array or instance decides, unless a function is entered again, which makes it linear.
-/
namespace GrowthOrder

/-- Something that takes memory. -/
inductive Allocation
  | array (shape : Shape)
  | object
  /-- A function is entered while it is running. -/
  | reentry
  deriving DecidableEq

namespace Allocation

/-- What an allocation contributes to the bound. -/
def bound : Allocation → Bound
  | array shape => if shape.rank = 1 then .linear else .polynomial shape.rank.toUInt32
  | object => .linear
  | reentry => .constant

/-- The number of elements of an array of fixed size. -/
def size? : Allocation → Option UInt64
  | array shape => shape.size
  | _ => none

def isReentry : Allocation → Bool
  | reentry => true
  | _ => false

end Allocation

namespace SyntaxTree

/-- What takes memory at or below a node, while the functions `running` are on the way to it. -/
def allocationsAt (t : SyntaxTree) (id : Nat) : List String → List Allocation :=
  t.fold (fun id below running =>
    let all (running : List String) := below.flatMap fun (_, allocations) => allocations running
    match t.kind id with
    | .arrayDeclaration shape => .array shape :: all running
    | .newInstance => [.object]
    | .functionDeclaration name =>
      if running.contains name then [.reentry] else all (name :: running)
    | .functionCall name | .recursiveCall name =>
      if running.contains name then [.reentry] else all running
    | .returnStatement =>
      below.flatMap fun (child, allocations) =>
        if t.kind child = .expression then allocations running else []
    | .literal | .specialReference | .typedef | .sizeof | .unknown => []
    | .program | .block | .loop _ _ | .conditional | .typeDeclaration _ | .expression
    | .initialization | .condition | .update => all running) id

end SyntaxTree

namespace SpaceBound

/-- The elements of the arrays of fixed size, as a sum. -/
def footprintOf (sizes : List UInt64) : Option Bound :=
  sizes.foldl (fun sum size =>
    let term := Bound.symbolic (toString size.toNat)
    some (match sum with
      | some sum => sum.add term
      | none => term)) none

def ofAllocations (allocations : List Allocation) : SpaceBound :=
  let recursive := allocations.any Allocation.isReentry
  { bound :=
      if recursive then .linear
      else allocations.foldl (fun total a => total.add a.bound) .constant
    recursive
    footprint := footprintOf (allocations.filterMap Allocation.size?) }

end SpaceBound

/-- The memory of the whole tree. -/
def SyntaxTree.space (t : SyntaxTree) : Except AnalysisError SpaceBound :=
  match t.root? with
  | none => .error .emptyTree
  | some root => .ok (.ofAllocations (t.allocationsAt root []))

end GrowthOrder
