import GrowthOrder.Dialect
import GrowthOrder.Path
import GrowthOrder.Text.Shown
/-!
What a user can set: the grammar, the form of the output, and the names of further constant-time
routines for each grammar. Such names must be words of the scanner.
-/
namespace GrowthOrder

/-- A grammar, or the wish that it be found out. -/
inductive GrammarChoice
  | auto
  | c
  | java
  deriving DecidableEq

namespace GrammarChoice

def name : GrammarChoice → String
  | auto => "auto"
  | c => "c"
  | java => "java"

def ofGrammar : Grammar → GrammarChoice
  | .cLike => c
  | .javaLike => java

/-- The choice that is written exactly so. -/
def ofExactName? (text : String) : Option GrammarChoice :=
  [auto, c, java].find? (·.name = text)

/-- Reads a choice: `auto` or a grammar's name, in any case. -/
def ofName (text : String) : Except AnalysisError GrammarChoice :=
  if text.map Char.toLower = "auto" then .ok auto
  else
    match Grammar.ofName? text with
    | some grammar => .ok (ofGrammar grammar)
    | none => .error .unsupportedGrammar

/-- The grammar of a text: as chosen, else by the extension of its path, else by its markers. -/
def resolve (choice : GrammarChoice) (source : String) (path : Option String) :
    Except AnalysisError Grammar :=
  match choice with
  | c => .ok .cLike
  | java => .ok .javaLike
  | auto =>
    match path.bind Path.grammar? with
    | some grammar => .ok grammar
    | none => Grammar.ofMarkers source

end GrammarChoice

/-- The form of the output. -/
inductive OutputFormat
  | text
  | json
  deriving DecidableEq

namespace OutputFormat

def name : OutputFormat → String
  | text => "text"
  | json => "json"

/-- The format that is written exactly so. -/
def ofExactName? (name : String) : Option OutputFormat :=
  [text, json].find? (·.name = name)

/-- Reads the name of a format, in any case. -/
def ofName? (name : String) : Option OutputFormat :=
  let lowered := name.map Grammar.lower
  if lowered = "text" ∨ lowered = "txt" then some text
  else if lowered = "json" then some json
  else none

/-- The complaint about a name that no format has. -/
def unknownName (name : String) : String :=
  "Unknown output format: " ++ name

end OutputFormat

structure Settings where
  grammar : GrammarChoice := .auto
  format : OutputFormat := .text
  /-- Whether JSON is indented. -/
  pretty : Bool := true
  cIntrinsics : List String := []
  javaIntrinsics : List String := []
  deriving DecidableEq

namespace Settings

def intrinsics (s : Settings) : Grammar → List String
  | .cLike => s.cIntrinsics
  | .javaLike => s.javaIntrinsics

/-- The dialect of a grammar under these settings. -/
def dialect (s : Settings) (g : Grammar) : Dialect where
  grammar := g
  intrinsics := s.intrinsics g

/-- Whether a text is a word: a letter or underscore, then letters, digits and underscores. -/
def isWord (text : String) : Bool :=
  match text.toList with
  | [] => false
  | c :: cs => (c.isAlpha || c == '_') && cs.all fun c => c.isAlphanum || c == '_'

/-- The first name that is not a word. -/
def badName? (s : Settings) : Option String :=
  (s.cIntrinsics ++ s.javaIntrinsics).find? fun name => !isWord name

/-- The digits of a number to the base sixteen. -/
def hexDigits (n : Nat) : List Char :=
  Nat.toDigits 16 n

/-- A character as it stands in a quoted name: what does not show is given by its number. -/
def escape (c : Char) : List Char :=
  if c = '\x00' then ['\\', '0']
  else if c = '\t' then ['\\', 't']
  else if c = '\r' then ['\\', 'r']
  else if c = '\n' then ['\\', 'n']
  else if c = '\\' then ['\\', '\\']
  else if c = '"' then ['\\', '"']
  else if Text.isShown c then [c]
  else ['\\', 'u', '\x7b'] ++ hexDigits c.toNat ++ ['\x7d']

/-- A name in quotes. -/
def quote (name : String) : String :=
  "\"" ++ String.ofList (name.toList.flatMap escape) ++ "\""

/-- The complaint about a name that is not a word. -/
def invalidName (name : String) : String :=
  "Invalid intrinsic name " ++ quote name ++ ": expected an identifier"

/-- A list of names in a settings file: on one line if there is at most one, else a line each. -/
def namesText (names : List String) : String :=
  match names with
  | [] => "[]"
  | [name] => "[\"" ++ name ++ "\"]"
  | names => "[\n" ++ String.join (names.map fun name => "    \"" ++ name ++ "\",\n") ++ "]"

/-- The settings as the text of a settings file. -/
def toText (s : Settings) : String :=
  "[analysis]\ngrammar = \"" ++ s.grammar.name ++ "\"\n" ++
  "\n[output]\nformat = \"" ++ s.format.name ++ "\"\npretty = " ++
    (if s.pretty then "true" else "false") ++ "\n" ++
  "\n[intrinsics]\nc = " ++ namesText s.cIntrinsics ++ "\njava = " ++
    namesText s.javaIntrinsics ++ "\n"

end Settings

end GrowthOrder
