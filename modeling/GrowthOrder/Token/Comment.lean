/-!
Taking comments out of a text. Quoted literals that close on their line are kept as they are,
whatever they hold; each comment becomes one blank. A quote that is not closed on its line, or a
block comment that is not closed at all, is ordinary text.
-/
namespace GrowthOrder.Comment

/-- How many characters follow the opening mark `q` of a quoted literal, up to and including its
closing mark. There is no such number if the line ends first. -/
def quotedExtent (q : Char) : List Char → Option Nat
  | [] => none
  | '\\' :: c :: rest => if c = '\n' then none else (quotedExtent q rest).map (· + 2)
  | c :: rest =>
    if c = q then some 1
    else if c = '\\' ∨ c = '\n' then none
    else (quotedExtent q rest).map (· + 1)

/-- How many characters follow the opening of a block comment, up to and including its end. -/
def blockExtent : List Char → Option Nat
  | [] => none
  | '*' :: '/' :: _ => some 2
  | _ :: rest => (blockExtent rest).map (· + 1)

/-- The text without its comments. -/
def strip : List Char → List Char
  | [] => []
  | c :: cs =>
    if c = '"' ∨ c = '\x27' then
      match quotedExtent c cs with
      | some n => c :: cs.take n ++ strip (cs.drop n)
      | none => c :: strip cs
    else if c = '/' ∧ cs.head? = some '/' then
      ' ' :: strip (cs.dropWhile (· ≠ '\n'))
    else if c = '/' ∧ cs.head? = some '*' then
      match blockExtent cs.tail with
      | some n => ' ' :: strip (cs.drop (n + 1))
      | none => c :: strip cs
    else c :: strip cs
termination_by text => text.length
decreasing_by
  all_goals simp only [List.length_cons, List.length_drop]
  any_goals omega
  have := (List.dropWhile_sublist (fun c => decide (c ≠ '\n')) (l := cs)).length_le
  omega

end GrowthOrder.Comment
