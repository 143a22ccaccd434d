/-!
Bounds on growth. A ranked bound has a class and a polynomial degree of 32 bits, so that nesting
beyond the cubic class still counts; a symbolic bound is an expression such as a fixed number of
elements. Bounds are added for code in sequence, where the dominant term stays, and multiplied for
nested code, where degrees add up and may leave 32 bits.
-/
namespace GrowthOrder

/-- Classes of growth, from the slowest to the fastest. -/
inductive GrowthClass
  | constant
  | logarithmic
  | linear
  | linearithmic
  | quadratic
  | cubic
  | exponential
  deriving DecidableEq

namespace GrowthClass

/-- The place of a class in the order of growth. -/
def rank : GrowthClass → Nat
  | constant => 0
  | logarithmic => 1
  | linear => 2
  | linearithmic => 3
  | quadratic => 4
  | cubic => 5
  | exponential => 6

/-- The polynomial degree of the plain member of a class. -/
def baseDegree : GrowthClass → UInt32
  | constant | logarithmic | exponential => 0
  | linear | linearithmic => 1
  | quadratic => 2
  | cubic => 3

def hasLogFactor : GrowthClass → Bool
  | logarithmic | linearithmic => true
  | _ => false

end GrowthClass

inductive Bound
  | ranked (growth : GrowthClass) (degree : UInt32)
  | symbolic (expression : String)
  deriving DecidableEq

namespace Bound

/-- The plain member of a class. -/
def ofClass (growth : GrowthClass) : Bound :=
  ranked growth growth.baseDegree

def constant : Bound := ofClass .constant
def logarithmic : Bound := ofClass .logarithmic
def linear : Bound := ofClass .linear
def linearithmic : Bound := ofClass .linearithmic
def quadratic : Bound := ofClass .quadratic
def cubic : Bound := ofClass .cubic
def exponential : Bound := ofClass .exponential

/-- The bound `n ^ degree`; degrees above three stay in the cubic class. -/
def polynomial (degree : UInt32) : Bound :=
  if degree = 0 then constant
  else if degree = 1 then linear
  else if degree = 2 then quadratic
  else ranked .cubic degree

def growth? : Bound → Option GrowthClass
  | ranked growth _ => some growth
  | symbolic _ => none

/-- Only the class counts: a degree does not make a constant bound grow. -/
def isConstant (b : Bound) : Bool :=
  b.growth? = some .constant

/-- Whether a class and degree are at or above others: first by class, then by degree. -/
def atLeast (g : GrowthClass) (d : UInt32) (g' : GrowthClass) (d' : UInt32) : Bool :=
  g'.rank < g.rank || (g'.rank = g.rank && d' ≤ d)

/-- Code in sequence: the dominant bound. A symbolic bound gives way to every ranked one that is
not constant. -/
def add (a b : Bound) : Bound :=
  if a.isConstant then b
  else if b.isConstant then a
  else
    match a, b with
    | symbolic x, symbolic y => symbolic (x ++ " + " ++ y)
    | symbolic _, ranked g d => ranked g d
    | ranked g d, symbolic _ => ranked g d
    | ranked g d, ranked g' d' => if atLeast g d g' d' then a else b

/-- An expression as a factor. -/
def factor (expression : String) : String :=
  if expression.toList.contains '+' then "(" ++ expression ++ ")" else expression

/-- The degree sum, unless it leaves 32 bits. -/
def sum? (a b : UInt32) : Option UInt32 :=
  if a.toNat + b.toNat < UInt32.size then some (a + b) else none

/-- The product of two ranked bounds that grow no faster than polynomials. A logarithmic factor
beyond the linearithmic class is rounded up to a whole degree. -/
def nested? (degree : UInt32) (logFactor : Bool) : Option Bound :=
  if degree = 0 then some logarithmic
  else if logFactor then
    if degree = 1 then some linearithmic else (sum? degree 1).map polynomial
  else some (polynomial degree)

/-- Nested code. There is no result if a degree leaves 32 bits. -/
def multiply? (a b : Bound) : Option Bound :=
  if a.isConstant then some b
  else if b.isConstant then some a
  else
    match a, b with
    | symbolic x, symbolic y => some (symbolic (factor x ++ " * " ++ factor y))
    | symbolic _, ranked g d => some (ranked g d)
    | ranked g d, symbolic _ => some (ranked g d)
    | ranked g d, ranked g' d' =>
      if g = .exponential ∨ g' = .exponential then some exponential
      else (sum? d d').bind fun degree => nested? degree (g.hasLogFactor || g'.hasLogFactor)

/-- The bound in the usual notation. -/
def bigO : Bound → String
  | symbolic expression => "O(" ++ expression ++ ")"
  | ranked .constant _ => "O(1)"
  | ranked .logarithmic _ => "O(log n)"
  | ranked .linear _ => "O(n)"
  | ranked .linearithmic _ => "O(n log n)"
  | ranked .quadratic _ => "O(n^2)"
  | ranked .cubic degree => "O(n^" ++ toString (max degree.toNat 3) ++ ")"
  | ranked .exponential _ => "O(2^n)"

/-- The bound of a loop by the bound of its body. -/
def inLoop (body : Bound) : Bound :=
  match body.growth? with
  | some .constant | some .logarithmic | none => linear
  | some .linear => quadratic
  | some .quadratic => cubic
  | some _ => body

end Bound

/-- Why no bound on the running time is known. -/
inductive Unresolved
  /-- A function calls itself in a way that no rule covers. -/
  | recursion (function : String)
  /-- A function without a known cost is called. -/
  | call (name : String)
  deriving DecidableEq

def Unresolved.message : Unresolved → String
  | recursion function => "recursion in `" ++ function ++ "` matches no known pattern"
  | call name => "cost of call to `" ++ name ++ "` is unknown"

/-- A bound on the running time, or the reason why there is none. -/
inductive TimeBound
  | known (bound : Bound)
  | unknown (reason : Unresolved)
  deriving DecidableEq

namespace TimeBound

def constant : TimeBound := known .constant

def reason? : TimeBound → Option Unresolved
  | known _ => none
  | unknown reason => some reason

def bound? : TimeBound → Option Bound
  | known bound => some bound
  | unknown _ => none

/-- Code in sequence; the first unknown part decides. -/
def dominant : TimeBound → TimeBound → TimeBound
  | unknown reason, _ => unknown reason
  | known _, unknown reason => unknown reason
  | known a, known b => known (a.add b)

/-- A loop around code; an unknown body stays unknown. -/
def inLoop : TimeBound → TimeBound
  | known body => known body.inLoop
  | unknown reason => unknown reason

def text : TimeBound → String
  | known bound => bound.bigO
  | unknown _ => "O(?)"

end TimeBound

/-- A bound on the memory in use. -/
structure SpaceBound where
  bound : Bound
  /-- Whether a function is entered again while it runs. -/
  recursive : Bool
  /-- The number of elements of the arrays of fixed size, if there are any. -/
  footprint : Option Bound
  deriving DecidableEq

def SpaceBound.text (s : SpaceBound) : String :=
  s.bound.bigO

end GrowthOrder
