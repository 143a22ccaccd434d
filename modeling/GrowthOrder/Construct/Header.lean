import GrowthOrder.Token
import GrowthOrder.Construct
/-!
Loop headers. A positional header is the next tokens as they stand; a structured one is up to three
clauses in parentheses, ended by semicolons or by the closing parenthesis.
-/
namespace GrowthOrder

namespace ForHeader

/-- The texts of a clause up to a semicolon or a closing parenthesis outside `depth` open ones, and
whether it is the parenthesis that ends it. -/
def clause : Nat → List Token → Option (List String × Bool)
  | _, [] => none
  | depth, t :: rest =>
    if depth = 0 ∧ (t.is ";" ∨ t.is ")") then some ([], t.is ")")
    else
      let inner := if t.is "(" then depth + 1 else if t.is ")" then depth - 1 else depth
      (clause inner rest).map fun (texts, last) => (t.text :: texts, last)

/-- At most so many clauses, and how many tokens they take with the tokens that end them. -/
def clauses? : Nat → List Token → Option (List (List String) × Nat)
  | 0, _ => some ([], 0)
  | most + 1, ts =>
    (clause 0 ts).bind fun (texts, last) =>
      let taken := texts.length + 1
      if last then some ([texts], taken)
      else (clauses? most (ts.drop taken)).map fun (more, n) => (texts :: more, taken + n)

/-- The header at the front of the tokens, and how many tokens it takes. -/
def read : HeaderStyle → List Token → ForHeader × Nat
  | .positional, a :: b :: c :: _ => (positional a.text b.text c.text, 3)
  | .positional, ts => (cut, ts.length)
  | .structured, [] => (cut, 0)
  | .structured, t :: rest =>
    if t.is "(" then
      match clauses? 3 rest with
      | some (texts, n) => (clauses texts, n + 1)
      | none => (cut, rest.length + 1)
    else (absent, 0)

end ForHeader

/-- The condition at the front of the tokens, and how many tokens it takes. -/
def Condition.read : HeaderStyle → List Token → Condition × Nat
  | .structured, _ => (unread, 0)
  | .positional, [] => (cut, 0)
  | .positional, t :: _ => (token t.text, 1)

end GrowthOrder
