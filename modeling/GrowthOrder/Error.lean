/-!
What can go wrong in an analysis. Each cause is a constructor; the wording and the short code of a
cause are given once, here. A time bound that cannot be determined is not an error.
-/
namespace GrowthOrder

/-- The part of a loop that was being read when the tokens ran out. -/
inductive HeaderPart
  | forHeader
  | whileCondition
  | doWhileCondition
  deriving DecidableEq

def HeaderPart.name : HeaderPart → String
  | .forHeader => "for-loop header"
  | .whileCondition => "while-loop condition"
  | .doWhileCondition => "do-while condition"

/-- The causes for which an analysis stops. -/
inductive AnalysisError
  /-- The text shows the markers of neither grammar. -/
  | unsupportedGrammar
  /-- A loop header needs more tokens than there are. -/
  | endOfInput (part : HeaderPart)
  /-- A tree without nodes has no bound. -/
  | emptyTree
  deriving DecidableEq

namespace AnalysisError

def message : AnalysisError → String
  | unsupportedGrammar =>
    "Unsupported grammar: source matches neither the C-like nor the Java-like markers"
  | endOfInput part => "Unexpected end of input while parsing " ++ part.name
  | emptyTree => "Invalid argument: syntax tree has no root"

/-- A short stable name of the cause. -/
def code : AnalysisError → String
  | unsupportedGrammar => "unsupported-grammar"
  | endOfInput _ => "unexpected-end-of-input"
  | emptyTree => "invalid-argument"

end AnalysisError

end GrowthOrder
