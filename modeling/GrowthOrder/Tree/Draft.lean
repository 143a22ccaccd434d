import GrowthOrder.Tree.Builder
import GrowthOrder.Construct.Read
/-!
From constructs to the tree. A draft is a builder that also remembers the scope closed last, which
tells the trailer of a do-loop from a loop of its own. The only errors are headers cut off by the
end of the input.
-/
namespace GrowthOrder

/-- An array under its name, with its literal dimensions as children. -/
def Forest.array (label : String) (dimensions : List Dimension) : Forest :=
  match Shape.ofList? dimensions with
  | none => .nil
  | some shape => .cons (.arrayDeclaration shape) (some label) (literals shape.literals) .nil
where
  literals : List UInt64 → Forest
    | [] => .nil
    | size :: sizes => .cons .literal (some (toString size.toNat)) .nil (literals sizes)

/-- The clauses of a header, with the kinds and labels that are left for them. -/
def Forest.clauses : List (NodeKind × String) → List (List String) → Forest
  | (kind, label) :: kinds, texts :: more =>
    .cons kind (some label) (.expressions texts) (clauses kinds more)
  | _, _ => .nil

namespace Arguments

/-- A call is recursive if it names the function around it. -/
def callKind (enclosing : Option String) (name : String) : NodeKind :=
  if enclosing = some name then .recursiveCall name else .functionCall name

/-- The nodes of the arguments of a call inside a function. -/
def forest (enclosing : Option String) : Arguments → Forest
  | done _ => .nil
  | word text rest => .cons .expression (some text) .nil (rest.forest enclosing)
  | call name inner rest =>
    .cons (callKind enclosing name) (some (callText name inner.parts)) (inner.forest enclosing)
      (rest.forest enclosing)

end Arguments

namespace ForHeader

def clauseKinds : List (NodeKind × String) :=
  [(.initialization, "initialization"), (.condition, "condition"), (.update, "update")]

/-- The header slots that clauses fill. -/
def slots (texts : List (List String)) : LoopHeader where
  initialization := texts[0]?.map (" ".intercalate ·)
  condition := texts[1]?.map (" ".intercalate ·)
  update := texts[2]?.map (" ".intercalate ·)

end ForHeader

structure Draft where
  builder : Builder
  /-- The scope closed by the last closing brace, if it closed one. -/
  lastClosed : Option Nat

namespace Draft

def start : Draft where
  builder := .start
  lastClosed := none

def leaf (x : Draft) (kind : NodeKind) (label : String) : Draft :=
  { x with builder := x.builder.leaf kind (some label) }

def enter (x : Draft) (kind : NodeKind) (label : String) : Draft :=
  { x with builder := x.builder.enter kind (some label) }

/-- Adds nodes under the innermost scope. -/
def graft (x : Draft) (nodes : Forest) : Draft :=
  { x with builder := x.builder.graft x.builder.top nodes }

/-- The do-loop whose body ends right before a keyword. -/
def pendingDo? (x : Draft) (afterBrace : Bool) : Option Nat :=
  if afterBrace then
    x.lastClosed.filter fun id =>
      match x.builder.tree.kind id with
      | .loop .doWhile _ => true
      | _ => false
  else none

/-- The name of the function around the innermost scope. -/
def enclosing? (x : Draft) : Option String :=
  (x.builder.tree.enclosingFunction? x.builder.top).bind fun id =>
    (x.builder.tree.kind id).functionName?

def addForLoop (x : Draft) (label : String) : ForHeader → Except AnalysisError Draft
  | .positional initialization condition update =>
    .ok (x.enter (.loop .forLoop
      { initialization := some initialization, condition := some condition,
        update := some update }) label)
  | .clauses texts =>
    .ok (x.graft (.cons (.loop .forLoop (ForHeader.slots texts)) (some label)
      (.clauses ForHeader.clauseKinds texts) .nil))
  | .absent => .ok (x.leaf (.loop .forLoop {}) label)
  | .cut => .error (.endOfInput .forHeader)

def addWhileLoop (x : Draft) (label : String) : Condition → Except AnalysisError Draft
  | .unread => .ok (x.enter (.loop .whileLoop {}) label)
  | .token text => .ok (x.enter (.loop .whileLoop { condition := some text }) label)
  | .cut => .error (.endOfInput .whileCondition)

/-- The condition behind a do-loop's body. -/
def addTrailer (x : Draft) (id : Nat) : Condition → Except AnalysisError Draft
  | .unread => .ok { x with lastClosed := none }
  | .token text => .ok { builder := x.builder.setCondition id text, lastClosed := none }
  | .cut => .error (.endOfInput .doWhileCondition)

def add (x : Draft) : Construct → Except AnalysisError Draft
  | .leaf kind label => .ok (x.leaf kind label)
  | .scope kind label => .ok (x.enter kind label)
  | .close =>
    let (closed, builder) := (x.builder.leaf .expression (some "\x7d")).leave
    .ok { builder, lastClosed := closed }
  | .forLoop label header => x.addForLoop label header
  | .whileLoop label afterBrace condition =>
    match x.pendingDo? afterBrace with
    | some id => x.addTrailer id condition
    | none => x.addWhileLoop label condition
  | .typedArray typeName name dimensions =>
    .ok (x.graft (.cons
      (.typeDeclaration
        { typeName, name, isArray := true, isTwoDimensional := dimensions.length == 2 })
      (some typeName) (.array (name.getD typeName) dimensions) .nil))
  | .bareArray name dimensions => .ok (x.graft (.array name dimensions))
  | .call name arguments =>
    let enclosing := x.enclosing?
    .ok (x.graft (.cons (Arguments.callKind enclosing name)
      (some (Arguments.callText name arguments.parts)) (arguments.forest enclosing) .nil))

end Draft

namespace SyntaxTree

/-- The tree of a list of constructs. -/
def ofConstructs (constructs : List Construct) : Except AnalysisError SyntaxTree :=
  (constructs.foldlM Draft.add Draft.start).map fun x => x.builder.finish

/-- The tree of a stream of tokens. -/
def ofTokens (d : Dialect) (tokens : List Token) : Except AnalysisError SyntaxTree :=
  ofConstructs (Construct.list d none tokens)

end SyntaxTree

end GrowthOrder
