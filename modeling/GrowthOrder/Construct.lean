import GrowthOrder.Tree.Node
/-!
Constructs: the units in which a stream of tokens is read, between the tokens and the tree. A
construct holds what the tree needs of the tokens it covers. Where a header is cut off by the end
of the input the construct says so; whether that is an error is decided when the tree is built.
-/
namespace GrowthOrder

/-- What stands between the parentheses of a call, from left to right. -/
inductive Arguments
  /-- Nothing more; `closed` tells whether the closing parenthesis is there. -/
  | done (closed : Bool)
  | word (text : String) (rest : Arguments)
  | call (name : String) (inner rest : Arguments)
  deriving DecidableEq

namespace Arguments

/-- The text of a call, from its name and the texts of its arguments. -/
def callText (name : String) (parts : List String) : String :=
  name ++ "(" ++ " ".intercalate parts ++ ")"

/-- The texts of the arguments; a call in an argument is one text. -/
def parts : Arguments → List String
  | done _ => []
  | word text rest => text :: rest.parts
  | call name inner rest => callText name inner.parts :: rest.parts

end Arguments

/-- The header of a counting loop. -/
inductive ForHeader
  /-- Three tokens taken as they stand. -/
  | positional (initialization condition update : String)
  /-- The clauses of a parenthesised header, one to three. -/
  | clauses (texts : List (List String))
  /-- The loop has no parenthesised header. -/
  | absent
  /-- The input ends inside the header. -/
  | cut
  deriving DecidableEq

/-- The condition of a loop. -/
inductive Condition
  /-- The grammar reads none. -/
  | unread
  | token (text : String)
  /-- The input ends before it. -/
  | cut
  deriving DecidableEq

/-- A unit of the token stream. -/
inductive Construct
  /-- A node without children. -/
  | leaf (kind : NodeKind) (label : String)
  /-- The beginning of a scope. -/
  | scope (kind : NodeKind) (label : String)
  /-- A brace that closes a scope. -/
  | close
  | forLoop (label : String) (header : ForHeader)
  /-- A loop by its condition; `afterBrace` tells whether a closing brace stands right before. -/
  | whileLoop (label : String) (afterBrace : Bool) (condition : Condition)
  /-- A declaration with a type, of a name if there is one. -/
  | typedArray (typeName : String) (name : Option String) (dimensions : List Dimension)
  /-- A name with subscripts that stands as a statement of its own. -/
  | bareArray (name : String) (dimensions : List Dimension)
  | call (name : String) (arguments : Arguments)
  deriving DecidableEq

end GrowthOrder
