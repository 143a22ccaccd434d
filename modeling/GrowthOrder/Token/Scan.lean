import GrowthOrder.Token
import GrowthOrder.Token.Comment
/-!
Cutting a text into tokens. At each position one lexeme is cut off: a word, a run of digits, a
quoted literal or the longest symbol of the grammar. Blanks, characters outside every class and
quotes that begin no literal are dropped, so scanning never fails.
-/
namespace GrowthOrder

namespace Scan

def isWordStart (c : Char) : Bool :=
  c.isAlpha || c == '_'

def isWordRest (c : Char) : Bool :=
  c.isAlphanum || c == '_'

/-- The characters with which a symbol can begin. -/
def isPunctuation (c : Char) : Bool :=
  ['=', '!', '<', '>', '+', '-', '*', '/', '%', '&', '|', '^', '~', '(', ')', '\x7b', '\x7d',
    '[', ']', ';', ',', '.', ':'].contains c

/-- How a string literal ends, counting the characters after its opening quote. -/
inductive StringEnd
  /-- The closing quote is the last of these characters. -/
  | closed (extent : Nat)
  /-- The last of these characters is a backslash before a line feed. -/
  | broken (extent : Nat)
  /-- The text ends first. -/
  | unclosed
  deriving DecidableEq

def StringEnd.shift (n : Nat) : StringEnd → StringEnd
  | closed extent => closed (extent + n)
  | broken extent => broken (extent + n)
  | unclosed => unclosed

/-- The end of the string literal whose opening quote stands before this text. -/
def stringEnd : List Char → StringEnd
  | [] => .unclosed
  | '\\' :: c :: rest => if c = '\n' then .broken 1 else (stringEnd rest).shift 2
  | c :: rest =>
    if c = '"' then .closed 1
    else if c = '\\' then .unclosed
    else (stringEnd rest).shift 1

/-- How many characters of this text belong to the character literal whose opening mark stands
before it: one character or one escape, and the closing mark. -/
def characterExtent : List Char → Option Nat
  | '\\' :: c :: '\x27' :: _ => if c = '\n' then none else some 3
  | c :: '\x27' :: _ => if c = '\x27' ∨ c = '\\' then none else some 2
  | _ => none

/-- A word is a keyword if the grammar lists it. -/
def word (g : Grammar) (text : String) : Token :=
  if g.isKeyword text then ⟨.keyword, text⟩ else ⟨.identifier, text⟩

/-- The lexeme that begins with `c`: its token, if it is kept, and how many of the characters after
`c` belong to it. -/
def lexeme (g : Grammar) (c : Char) (cs : List Char) : Option Token × Nat :=
  if isWordStart c then
    let tail := cs.takeWhile isWordRest
    (some (word g (String.ofList (c :: tail))), tail.length)
  else if c.isDigit then
    let tail := cs.takeWhile Char.isDigit
    (some ⟨.literal, String.ofList (c :: tail)⟩, tail.length)
  else if c = '"' then
    match stringEnd cs with
    | .closed n => (some ⟨.literal, String.ofList (c :: cs.take n)⟩, n)
    | .broken n => (none, n)
    | .unclosed => (none, cs.length)
  else if c = '\x27' then
    match characterExtent cs with
    | some n => (some ⟨.literal, String.ofList (c :: cs.take n)⟩, n)
    | none => (none, 0)
  else if isPunctuation c then
    match g.longestSymbol (c :: cs) with
    | some (text, kind) => (some ⟨kind.tokenKind, text⟩, text.length - 1)
    | none => (some ⟨.unknown, String.ofList [c]⟩, 0)
  else (none, 0)

/-- The tokens of a text, comments included. -/
def tokens (g : Grammar) : List Char → List Token
  | [] => []
  | c :: cs =>
    let (token, n) := lexeme g c cs
    token.toList ++ tokens g (cs.drop n)
termination_by text => text.length

end Scan

namespace Grammar

/-- The characters that are scanned: without comments where the grammar takes them out. -/
def scannedText (g : Grammar) (source : String) : List Char :=
  if g.stripsComments then Comment.strip source.toList else source.toList

/-- The tokens of a source text, in order. -/
def tokenize (g : Grammar) (source : String) : List Token :=
  Scan.tokens g (g.scannedText source)

end Grammar

end GrowthOrder
