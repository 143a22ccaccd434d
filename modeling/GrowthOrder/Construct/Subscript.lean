import GrowthOrder.Token
import GrowthOrder.Construct
/-!
Bracketed dimensions after a name or a type. Groups of brackets are read one after the other, each
up to its first closing bracket or, if there is none, to the end of the tokens. A statement that is
only a name with subscripts is recognised by looking ahead to its semicolon.
-/
namespace GrowthOrder

/-- The dimension that stands between a pair of brackets. -/
def Dimension.ofTokens : List Token → Dimension
  | [] => .unsized
  | [t] =>
    match if t.kind = .literal then Dimension.number? t.text else none with
    | some size => .literal size
    | none => .symbolic t.text
  | ts => .symbolic (" ".intercalate (ts.map (·.text)))

namespace Subscript

/-- The tokens before the next closing bracket. -/
def inside (ts : List Token) : List Token :=
  ts.takeWhile fun t => !t.is "]"

/-- The dimensions at the front of the tokens, and how many tokens they take. -/
def dimensions : List Token → List Dimension × Nat
  | [] => ([], 0)
  | t :: rest =>
    if t.is "[" then
      let group := inside rest
      let taken := min (group.length + 1) rest.length
      let (more, n) := dimensions (rest.drop taken)
      (Dimension.ofTokens group :: more, 1 + taken + n)
    else ([], 0)
termination_by ts => ts.length

/-- The number of closed groups of brackets before a semicolon; none if a group is not closed or
something else follows. -/
def groups? : List Token → Option Nat
  | [] => none
  | t :: rest =>
    if t.is "[" then
      let taken := (inside rest).length + 1
      if taken ≤ rest.length then (groups? (rest.drop taken)).map (· + 1) else none
    else if t.is ";" then some 0
    else none
termination_by ts => ts.length
decreasing_by
  simp only [List.length_drop, List.length_cons]
  omega

/-- Whether subscripts, at least one, and a semicolon come next. -/
def endsStatement (ts : List Token) : Bool :=
  match groups? ts with
  | some n => 0 < n
  | none => false

end Subscript

end GrowthOrder
