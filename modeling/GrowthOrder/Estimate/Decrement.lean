import GrowthOrder.Text.CharClass
/-!
Recognising a call whose argument is decreased by one. The text of the call holds, behind an
opening parenthesis on the same line, the word `n`, a minus sign and the number one, with blanks
between them, and on the line on which the number stands a closing parenthesis.
-/
namespace GrowthOrder

namespace Decrement

open Text

/-- Whether the text begins with `n - 1` as whole words and a parenthesis closes on that line. -/
def startsHere : List Char → Bool
  | 'n' :: rest =>
    match rest.dropWhile isBlank with
    | '-' :: rest =>
      match rest.dropWhile isBlank with
      | '1' :: rest =>
        !rest.head?.any isWordChar && (rest.takeWhile (· ≠ '\n')).contains ')'
      | _ => false
    | _ => false
  | _ => false

/-- Looks for `n - 1` in a text. `opened` tells whether a parenthesis was opened before on this
line, `inWord` whether the character before belongs to a word. -/
def search (opened inWord : Bool) : List Char → Bool
  | [] => false
  | c :: rest =>
    (opened && !inWord && startsHere (c :: rest)) ||
      search (c = '(' || (opened && c ≠ '\n')) (isWordChar c) rest

/-- The text behind the name with which it begins. -/
def afterName? (name call : List Char) : Option (List Char) :=
  if name.isPrefixOf call then some (call.drop name.length) else none

end Decrement

/-- Whether the text of a call to `name` shows an argument decreased by one. -/
def isDecrementing (name call : String) : Bool :=
  ((Decrement.afterName? name.toList call.toList).map (Decrement.search false false)).getD false

end GrowthOrder
