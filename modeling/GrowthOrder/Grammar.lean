import GrowthOrder.Error
/-!
The two source grammars and all that differs between them: word and symbol tables, the action of
each keyword, the way loop headers are read, and the routines with a known cost. Scanning and
reading are shared and consult these tables only.
-/
namespace GrowthOrder

/-- The grammar in which a source text is read. -/
inductive Grammar
  | cLike
  | javaLike
  deriving DecidableEq

/-- How the header of a loop is read. -/
inductive HeaderStyle
  /-- The next tokens are taken as they stand, and the loop stays open as a scope. -/
  | positional
  /-- A parenthesised header becomes part of the loop, which is closed after it. -/
  | structured
  deriving DecidableEq

/-- What a keyword stands for. -/
inductive KeywordAction
  | forLoop
  | whileLoop
  | doLoop
  | conditional
  | typeDeclaration
  | returnStatement
  | typedef
  | sizeof
  | newInstance
  | specialReference
  deriving DecidableEq

inductive SymbolKind
  | operator
  | separator
  deriving DecidableEq

namespace Grammar

/-- The name under which a grammar is shown. -/
def name : Grammar → String
  | cLike => "C"
  | javaLike => "Java"

/-- The name under which a grammar is written in reports. -/
def key : Grammar → String
  | cLike => "c"
  | javaLike => "java"

def keywords : Grammar → List String
  | cLike => [
    "auto", "break", "case", "char", "const", "continue", "default", "do", "double", "else",
    "enum", "extern", "float", "for", "goto", "if", "inline", "int", "long", "register",
    "restrict", "return", "short", "signed", "sizeof", "static", "struct", "switch", "typedef",
    "union", "unsigned", "void", "volatile", "while"]
  | javaLike => [
    "abstract", "assert", "boolean", "break", "byte", "case", "catch", "char", "class", "const",
    "continue", "default", "do", "double", "else", "enum", "extends", "final", "finally",
    "float", "for", "goto", "if", "implements", "import", "instanceof", "int", "interface",
    "long", "native", "new", "package", "private", "protected", "public", "return", "short",
    "static", "strictfp", "super", "switch", "synchronized", "this", "throw", "throws",
    "transient", "try", "void", "volatile", "while"]

def operators : Grammar → List String
  | cLike => [
    "=", "==", "!=", ">", "<", ">=", "<=", "+", "-", "*", "/", "%", "++", "--", "&&", "||",
    "!", "&", "|", "^", "~", "<<", ">>", "+=", "-=", "*=", "/=", "%="]
  | javaLike => [
    "=", "==", "!=", ">", "<", ">=", "<=", "+", "-", "*", "/", "%", "++", "--", "&&", "||",
    "!", "&", "|", "^", "~", "<<", ">>", ">>>", "+=", "-=", "*=", "/=", "%="]

def separators : Grammar → List String
  | cLike => ["(", ")", "\x7b", "\x7d", "[", "]", ";", ",", ".", "->"]
  | javaLike => ["(", ")", "\x7b", "\x7d", "[", "]", ";", ",", ".", ":", "->", "::"]

/-- The keywords with an action of their own. -/
def actions : Grammar → List (String × KeywordAction)
  | cLike => [
    ("for", .forLoop), ("while", .whileLoop), ("do", .doLoop),
    ("if", .conditional), ("else", .conditional),
    ("int", .typeDeclaration), ("double", .typeDeclaration), ("float", .typeDeclaration),
    ("char", .typeDeclaration), ("struct", .typeDeclaration), ("void", .typeDeclaration),
    ("long", .typeDeclaration), ("short", .typeDeclaration), ("signed", .typeDeclaration),
    ("unsigned", .typeDeclaration),
    ("return", .returnStatement), ("typedef", .typedef), ("sizeof", .sizeof)]
  | javaLike => [
    ("for", .forLoop), ("while", .whileLoop), ("do", .doLoop),
    ("if", .conditional), ("else", .conditional), ("switch", .conditional),
    ("case", .conditional),
    ("int", .typeDeclaration), ("double", .typeDeclaration), ("float", .typeDeclaration),
    ("char", .typeDeclaration), ("boolean", .typeDeclaration), ("byte", .typeDeclaration),
    ("short", .typeDeclaration), ("long", .typeDeclaration), ("void", .typeDeclaration),
    ("class", .typeDeclaration), ("interface", .typeDeclaration),
    ("return", .returnStatement), ("new", .newInstance),
    ("this", .specialReference), ("super", .specialReference)]

/-- Library routines that count as constant-time expressions. -/
def intrinsics : Grammar → List String
  | cLike => [
    "printf", "scanf", "puts", "putchar", "getchar", "fprintf", "sprintf", "snprintf", "abs",
    "fabs", "sqrt", "pow", "exit", "free", "assert"]
  | javaLike => [
    "println", "print", "printf", "format", "max", "min", "abs", "sqrt", "pow", "parseInt",
    "nextInt", "nextLine", "charAt", "length", "size", "get", "add", "equals", "isEmpty"]

/-- Library routines that allocate memory. -/
def allocators : Grammar → List String
  | cLike => ["malloc", "calloc", "realloc"]
  | javaLike => []

def headerStyle : Grammar → HeaderStyle
  | cLike => .positional
  | javaLike => .structured

/-- Whether comments are taken out before the text is scanned. -/
def stripsComments : Grammar → Bool
  | cLike => false
  | javaLike => true

def isKeyword (g : Grammar) (word : String) : Bool :=
  g.keywords.contains word

def action? (g : Grammar) (word : String) : Option KeywordAction :=
  g.actions.lookup word

def isIntrinsic (g : Grammar) (name : String) : Bool :=
  g.intrinsics.contains name

def isAllocator (g : Grammar) (name : String) : Bool :=
  g.allocators.contains name

/-- All symbols with their kinds, operators first. -/
def symbols (g : Grammar) : List (String × SymbolKind) :=
  g.operators.map (·, .operator) ++ g.separators.map (·, .separator)

/-- The longest symbol with which a text begins; of two equally long ones the later. -/
def longestSymbol (g : Grammar) (text : List Char) : Option (String × SymbolKind) :=
  (g.symbols.filter fun s => s.1.toList.isPrefixOf text).foldl
    (fun best s => match best with
      | none => some s
      | some b => if b.1.length ≤ s.1.length then some s else some b)
    none

/-- The lower case of a character as far as it can yield a letter of a grammar's name: besides
the capital letters, only the Kelvin sign has such a lower case. -/
def lower (c : Char) : Char :=
  if c = '\u212a' then 'k' else c.toLower

/-- Reads a grammar's name, in any case. -/
def ofName? (name : String) : Option Grammar :=
  let text := name.map lower
  if text = "c" ∨ text = "c-like" then some cLike
  else if text = "java" ∨ text = "java-like" then some javaLike
  else none

/-- Whether `part` occurs in `text`. -/
def occurs (part : List Char) : List Char → Bool
  | [] => part.isEmpty
  | c :: text => part.isPrefixOf (c :: text) || occurs part text

/-- Guesses the grammar from markers in the text; those of the second grammar come first. -/
def ofMarkers (source : String) : Except AnalysisError Grammar :=
  let has (marker : String) := occurs marker.toList source.toList
  if has "import" || has "public class" then .ok javaLike
  else if has "#include" || has "int main" then .ok cLike
  else .error .unsupportedGrammar

/-- The grammar that a file name extension stands for. -/
def ofExtension? (extension : String) : Option Grammar :=
  if extension = "c" ∨ extension = "h" then some cLike
  else if extension = "java" then some javaLike
  else none

end Grammar

end GrowthOrder
