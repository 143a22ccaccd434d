import GrowthOrder.Dialect
import GrowthOrder.Proofs.Program.Syntax
import GrowthOrder.Proofs.Time.Decrement

/-!
# Functions that call themselves

A function of one parameter whose body is made of simple statements, loops and conditionals with
braces around their bodies. Its simple statements may call the function itself, also in the
arguments of such a call, and call nothing else. A body has its tokens, its nodes, the depth of its
loops and the list of its calls.
-/
namespace GrowthOrder

open Program (key mark block clauses conditionHeader opening positionalHeader declaration)

/-- A simple sequence in which a function may call itself. -/
inductive Sentence (g : Grammar)
  | nil
  | word (token : Token) (simple : token.IsSimple g) (rest : Sentence g)
  | call (inner rest : Sentence g)

namespace Sentence

variable {g : Grammar}

/-- The tokens, for a function of this name. -/
def tokens (name : String) : Sentence g → List Token
  | nil => []
  | word token _ rest => token :: rest.tokens name
  | call inner rest =>
    ⟨.identifier, name⟩ :: mark "(" :: (inner.tokens name ++ mark ")" :: rest.tokens name)

/-- What the sequence stands for between the parentheses of a call. -/
def arguments (name : String) : Sentence g → Arguments
  | nil => .done true
  | word token _ rest => .word token.text (rest.arguments name)
  | call inner rest => .call name (inner.arguments name) (rest.arguments name)

/-- The nodes of the sequence inside the function. -/
def forest (name : String) (s : Sentence g) : Forest :=
  (s.arguments name).forest (some name)

/-- The arguments of all calls, each call before those inside it. -/
def calls : Sentence g → List (Sentence g)
  | nil => []
  | word _ _ rest => rest.calls
  | call inner rest => inner :: (inner.calls ++ rest.calls)

theorem texts_arguments (name : String) (s : Sentence g) :
    (s.arguments name).texts = (s.tokens name).map (·.text) := by
  induction s with
  | nil => rfl
  | word token simple rest ih => simp [arguments, Arguments.texts, tokens, ih]
  | call inner rest ihi ihr => simp [arguments, Arguments.texts, tokens, mark, ihi, ihr]

end Sentence

/-- Statements one after the other. Counting loops belong to the first grammar only. -/
inductive Routine (g : Grammar)
  | nil
  | statement (returns : Bool) (sentence : Sentence g) (rest : Routine g)
  | whileLoop (condition : Phrase g) (body rest : Routine g)
  | doLoop (body : Routine g) (condition : Phrase g) (rest : Routine g)
  | forLoop (isCLike : g = .cLike) (initialization condition update : Phrase g)
      (body rest : Routine g)
  | branch (condition : Phrase g) (body rest : Routine g)
  | branchElse (condition : Phrase g) (body other rest : Routine g)

namespace Routine

variable {g : Grammar}

/-- The keyword with which a statement begins that ends the function. -/
def leading (returns : Bool) : List Token :=
  if returns then [key "return"] else []

def tokens (name : String) : Routine g → List Token
  | nil => []
  | statement returns sentence rest =>
    leading returns ++ (sentence.tokens name ++ mark ";" :: rest.tokens name)
  | whileLoop condition body rest =>
    key "while" :: mark "(" :: (condition.tokens ++ mark ")" :: mark "\x7b" ::
      (body.tokens name ++ mark "\x7d" :: rest.tokens name))
  | doLoop body condition rest =>
    key "do" :: mark "\x7b" :: (body.tokens name ++ mark "\x7d" :: key "while" :: mark "(" ::
      (condition.tokens ++ mark ")" :: mark ";" :: rest.tokens name))
  | forLoop _ initialization condition update body rest =>
    key "for" :: mark "(" :: (clauses initialization condition update ++ mark "\x7b" ::
      (body.tokens name ++ mark "\x7d" :: rest.tokens name))
  | branch condition body rest =>
    key "if" :: mark "(" :: (condition.tokens ++ mark ")" :: mark "\x7b" ::
      (body.tokens name ++ mark "\x7d" :: rest.tokens name))
  | branchElse condition body other rest =>
    key "if" :: mark "(" :: (condition.tokens ++ mark ")" :: mark "\x7b" ::
      (body.tokens name ++ mark "\x7d" :: key "else" :: mark "\x7b" ::
        (other.tokens name ++ mark "\x7d" :: rest.tokens name)))

/-- The greatest number of loops around one another. -/
def loopDepth : Routine g → Nat
  | nil => 0
  | statement _ _ rest => rest.loopDepth
  | whileLoop _ body rest | doLoop body _ rest | forLoop _ _ _ _ body rest =>
    max (body.loopDepth + 1) rest.loopDepth
  | branch _ body rest => max body.loopDepth rest.loopDepth
  | branchElse _ body other rest => max body.loopDepth (max other.loopDepth rest.loopDepth)

/-- A call inside one more loop. -/
def deeper (c : Nat × Sentence g) : Nat × Sentence g :=
  (c.1 + 1, c.2)

/-- The arguments of all calls, each with the number of loops around it. -/
def calls : Routine g → List (Nat × Sentence g)
  | nil => []
  | statement _ sentence rest => sentence.calls.map (0, ·) ++ rest.calls
  | whileLoop _ body rest | doLoop body _ rest | forLoop _ _ _ _ body rest =>
    body.calls.map deeper ++ rest.calls
  | branch _ body rest => body.calls ++ rest.calls
  | branchElse _ body other rest => body.calls ++ (other.calls ++ rest.calls)

/-- The node of the keyword with which a statement begins. -/
def leadingForest (returns : Bool) : Forest :=
  if returns then .leaf .returnStatement "return" else .nil

def forest (name : String) : Routine g → Forest
  | nil => .nil
  | statement returns sentence rest =>
    leadingForest returns ++ (sentence.forest name ++ (.expressions [";"] ++ rest.forest name))
  | whileLoop condition body rest =>
    block (.loop .whileLoop (conditionHeader g)) "while"
      (opening g ++ (condition.texts ++ [")", "\x7b"])) (body.forest name) ++ rest.forest name
  | doLoop body condition rest =>
    block (.loop .doWhile {}) "do" ["\x7b"] (body.forest name) ++
      (.expressions (opening g ++ (condition.texts ++ [")", ";"])) ++ rest.forest name)
  | forLoop _ initialization condition update body rest =>
    block (.loop .forLoop (positionalHeader (clauses initialization condition update))) "for"
      (((clauses initialization condition update).drop 2).map (·.text) ++ ["\x7b"])
      (body.forest name) ++ rest.forest name
  | branch condition body rest =>
    block .conditional "if" ("(" :: (condition.texts ++ [")", "\x7b"])) (body.forest name) ++
      rest.forest name
  | branchElse condition body other rest =>
    block .conditional "if" ("(" :: (condition.texts ++ [")", "\x7b"])) (body.forest name) ++
      (block .conditional "else" ["\x7b"] (other.forest name) ++ rest.forest name)

end Routine

/-- The name of a function whose calls have a cost of their own. -/
structure FunctionName (d : Dialect) where
  text : String
  scanned : Token.Scanned d.grammar ⟨.identifier, text⟩
  not_intrinsic : d.isIntrinsic text = false
  not_allocator : d.grammar.isAllocator text = false

/-- A function with a number as its parameter. -/
structure Definition (d : Dialect) where
  type : TypeWord d.grammar
  name : FunctionName d
  body : Routine d.grammar

namespace Definition

variable {d : Dialect}

def numberType (g : Grammar) : TypeWord g :=
  ⟨"int", by cases g <;> rfl⟩

def parameter (g : Grammar) : VariableName g :=
  ⟨"n", "n", by cases g <;> decide +kernel⟩

def tokens (f : Definition d) : List Token :=
  key f.type.text :: ⟨.identifier, f.name.text⟩ :: mark "(" :: key "int" :: ⟨.identifier, "n"⟩ ::
    mark ")" :: mark "\x7b" :: (f.body.tokens f.name.text ++ [mark "\x7d"])

/-- The nodes inside the function. -/
def inside (f : Definition d) : Forest :=
  .expressions ["("] ++ (declaration (numberType d.grammar) (parameter d.grammar) ++
    (.expressions [")", "\x7b"] ++ (f.body.forest f.name.text ++ .expressions ["\x7d"])))

def forest (f : Definition d) : Forest :=
  .cons (.functionDeclaration f.name.text) (some f.name.text) f.inside .nil

end Definition

end GrowthOrder
