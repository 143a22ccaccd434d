import GrowthOrder.Token
/-!
A dialect: one of the grammars together with the names of further routines whose calls cost no more
than a constant.
-/
namespace GrowthOrder

structure Dialect where
  grammar : Grammar
  /-- Constant-time routines besides those of the grammar. -/
  intrinsics : List String := []

namespace Dialect

def isIntrinsic (d : Dialect) (name : String) : Bool :=
  d.grammar.isIntrinsic name || d.intrinsics.contains name

/-- Whether a token can name the callee of a call with a cost of its own. -/
def isCallee (d : Dialect) (t : Token) : Bool :=
  t.isIdentifier && !d.isIntrinsic t.text && !d.grammar.isAllocator t.text

end Dialect

end GrowthOrder
