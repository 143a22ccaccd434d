import GrowthOrder.Tree.Shape
/-!
Nodes of a syntax tree. Nodes are numbered from zero in the order in which they are made; a node
lists the numbers of its children in order and gives that of its parent.
-/
namespace GrowthOrder

inductive LoopForm
  | forLoop
  | whileLoop
  | doWhile
  deriving DecidableEq

/-- The parts of a loop's header, as far as they were read. -/
structure LoopHeader where
  initialization : Option String := none
  condition : Option String := none
  update : Option String := none
  deriving DecidableEq

structure Declaration where
  typeName : String
  name : Option String := none
  isArray : Bool := false
  isTwoDimensional : Bool := false
  deriving DecidableEq

/-- What a node stands for. -/
inductive NodeKind
  | program
  | block
  | loop (form : LoopForm) (header : LoopHeader)
  | conditional
  | typeDeclaration (declaration : Declaration)
  | arrayDeclaration (shape : Shape)
  | functionDeclaration (name : String)
  | functionCall (name : String)
  | recursiveCall (name : String)
  | returnStatement
  | newInstance
  | specialReference
  | typedef
  | sizeof
  | expression
  | literal
  | initialization
  | condition
  | update
  | unknown
  deriving DecidableEq

namespace NodeKind

def tag : NodeKind → String
  | program => "Program"
  | block => "Block"
  | loop .forLoop _ => "ForLoop"
  | loop .whileLoop _ => "WhileLoop"
  | loop .doWhile _ => "DoWhileLoop"
  | conditional => "Conditional"
  | typeDeclaration _ => "TypeDeclaration"
  | arrayDeclaration _ => "ArrayDeclaration"
  | functionDeclaration _ => "FunctionDeclaration"
  | functionCall _ => "FunctionCall"
  | recursiveCall _ => "RecursiveCall"
  | returnStatement => "ReturnStatement"
  | newInstance => "NewInstance"
  | specialReference => "SpecialReference"
  | typedef => "Typedef"
  | sizeof => "Sizeof"
  | expression => "Expression"
  | literal => "Literal"
  | initialization => "Initialization"
  | condition => "Condition"
  | update => "Update"
  | unknown => "Unknown"

def isLoop : NodeKind → Bool
  | loop _ _ => true
  | _ => false

def isFunction : NodeKind → Bool
  | functionDeclaration _ => true
  | _ => false

/-- The function that a definition or a call is about. -/
def functionName? : NodeKind → Option String
  | functionDeclaration name | functionCall name | recursiveCall name => some name
  | _ => none

/-- Replaces the condition of a loop; other kinds have none. -/
def withCondition (text : String) : NodeKind → NodeKind
  | loop form header => loop form { header with condition := some text }
  | kind => kind

end NodeKind

structure Node where
  kind : NodeKind
  label : Option String
  parent : Option Nat
  children : List Nat
  deriving DecidableEq

/-- The label, or the empty text. -/
def Node.text (n : Node) : String :=
  n.label.getD ""

end GrowthOrder
