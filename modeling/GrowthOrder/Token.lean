import GrowthOrder.Grammar
/-!
Tokens: a kind and the text as it stands in the source.
-/
namespace GrowthOrder

inductive TokenKind
  | keyword
  | identifier
  | operator
  | literal
  | separator
  | unknown
  deriving DecidableEq

def TokenKind.name : TokenKind → String
  | .keyword => "KEYWORD"
  | .identifier => "IDENTIFIER"
  | .operator => "OPERATOR"
  | .literal => "LITERAL"
  | .separator => "SEPARATOR"
  | .unknown => "UNKNOWN"

def SymbolKind.tokenKind : SymbolKind → TokenKind
  | .operator => .operator
  | .separator => .separator

structure Token where
  kind : TokenKind
  text : String
  deriving DecidableEq

namespace Token

/-- Whether the token has this text, whatever its kind. -/
def is (t : Token) (text : String) : Bool :=
  t.text == text

def isIdentifier (t : Token) : Bool :=
  t.kind == .identifier

/-- The token on a line of its own. -/
def line (t : Token) : String :=
  t.kind.name ++ " " ++ t.text

end Token

/-- How many tokens of each kind there are. -/
structure Tally where
  total : Nat
  keywords : Nat
  identifiers : Nat
  operators : Nat
  literals : Nat
  separators : Nat
  unknown : Nat
  deriving DecidableEq

namespace Tally

def ofTokens (tokens : List Token) : Tally :=
  let count (kind : TokenKind) := tokens.countP (·.kind == kind)
  { total := tokens.length
    keywords := count .keyword
    identifiers := count .identifier
    operators := count .operator
    literals := count .literal
    separators := count .separator
    unknown := count .unknown }

def render (t : Tally) : String :=
  "Token Statistics:\n" ++
  s!"  Total tokens: {t.total}\n" ++
  s!"  Keywords: {t.keywords}\n" ++
  s!"  Identifiers: {t.identifiers}\n" ++
  s!"  Operators: {t.operators}\n" ++
  s!"  Literals: {t.literals}\n" ++
  s!"  Separators: {t.separators}\n" ++
  s!"  Unknown: {t.unknown}\n"

end Tally

end GrowthOrder
