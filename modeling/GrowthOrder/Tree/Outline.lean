import GrowthOrder.Tree.Basic
/-!
The outline of a tree: one line per node, indented by its depth.
-/
namespace GrowthOrder

/-- What a line shows after tag and label. -/
def NodeKind.details : NodeKind → String
  | loop _ header =>
    let parts := [header.initialization, header.condition, header.update]
    if parts.any Option.isSome then
      " [" ++ " | ".intercalate (parts.map (·.getD "-")) ++ "]"
    else ""
  | arrayDeclaration shape => String.join (shape.dimensions.map fun d => "[" ++ d.text ++ "]")
  | typeDeclaration d =>
    match d.name with
    | some name => " (" ++ d.typeName ++ " " ++ name ++ ")"
    | none => ""
  | _ => ""

namespace SyntaxTree

/-- The line of a node, without indentation. -/
def line (t : SyntaxTree) (id : Nat) : String :=
  (t.kind id).tag ++ ((t.label id).map (": " ++ ·)).getD "" ++ (t.kind id).details

/-- The lines of a node and of all below it, each with its depth. -/
def lines (t : SyntaxTree) (id : Nat) : Nat → List (Nat × String) :=
  t.fold (fun id below depth =>
    (depth, t.line id) :: below.flatMap fun (_, lines) => lines (depth + 1)) id

/-- The outline of the whole tree. -/
def outline (t : SyntaxTree) : String :=
  match t.root? with
  | none => ""
  | some root =>
    String.join ((t.lines root 0).map fun (depth, text) =>
      String.join (List.replicate depth "  ") ++ text ++ "\n")

end SyntaxTree

end GrowthOrder
