/-!
Array dimensions. A shape has at least one dimension; its size is known only if all dimensions are
numbers, and the number of elements is multiplied up from the left in 64 bits.
-/
namespace GrowthOrder

/-- One declared dimension of an array. -/
inductive Dimension
  | literal (size : UInt64)
  | symbolic (text : String)
  | unsized
  deriving DecidableEq

namespace Dimension

def text : Dimension → String
  | literal size => toString size.toNat
  | symbolic text => text
  | unsized => ""

def literal? : Dimension → Option UInt64
  | literal size => some size
  | _ => none

/-- A number of 64 bits written in decimal digits. One plus sign may stand before them. -/
def number? (text : String) : Option UInt64 :=
  let digits :=
    match text.toList with
    | '+' :: digits => digits
    | digits => digits
  if digits.isEmpty || !digits.all Char.isDigit then none
  else
    let value := digits.foldl (fun n c => 10 * n + (c.toNat - '0'.toNat)) 0
    if value < UInt64.size then some value.toUInt64 else none

end Dimension

/-- The product, unless it leaves 64 bits. -/
def product? (a b : UInt64) : Option UInt64 :=
  if a.toNat * b.toNat < UInt64.size then some (a * b) else none

/-- The dimensions of an array. -/
structure Shape where
  dimensions : List Dimension
  nonempty : dimensions ≠ []
  deriving DecidableEq

namespace Shape

def ofList? (dimensions : List Dimension) : Option Shape :=
  if h : dimensions = [] then none else some ⟨dimensions, h⟩

def rank (s : Shape) : Nat :=
  s.dimensions.length

/-- The number of elements, as far as it is known at each step from the left. -/
def size (s : Shape) : Option UInt64 :=
  s.dimensions.foldlM (fun count d => d.literal?.bind (product? count)) 1

/-- The dimensions that are numbers, in order. -/
def literals (s : Shape) : List UInt64 :=
  s.dimensions.filterMap Dimension.literal?

end Shape

end GrowthOrder
