import GrowthOrder.Tree.Draft
import GrowthOrder.Proofs.Token.Kinds
import GrowthOrder.Proofs.Tree.Nesting

/-!
# Programs with matched braces

Programs made of simple statements, declarations of variables and arrays, loops and conditionals
with braces around their bodies. A program has its tokens, the forest of nodes that they stand for,
the nesting of its loops and conditionals, and the ranks of its arrays.
-/
namespace GrowthOrder

/-- The tokens of simple sequences: words, literals, operators, commas and dots. -/
def Token.IsSimple (g : Grammar) (t : Token) : Prop :=
  t.Scanned g ∧ (t.kind = .identifier ∨ t.kind = .literal ∨ t.kind = .operator) ∨
    t = ⟨.separator, ","⟩ ∨ t = ⟨.separator, "."⟩

/-- A simple sequence. -/
structure Phrase (g : Grammar) where
  tokens : List Token
  simple : ∀ t ∈ tokens, t.IsSimple g

def Phrase.texts {g : Grammar} (phrase : Phrase g) : List String :=
  phrase.tokens.map (·.text)

/-- A keyword that begins a declaration. -/
structure TypeWord (g : Grammar) where
  text : String
  declares : g.action? text = some .typeDeclaration

/-- A name that is declared. -/
structure VariableName (g : Grammar) where
  text : String
  scanned : Token.Scanned g ⟨.identifier, text⟩

/-- Statements one after the other. Counting loops belong to the first grammar only. -/
inductive Program (g : Grammar)
  | nil
  | simple (phrase : Phrase g) (rest : Program g)
  | declare (type : TypeWord g) (name : VariableName g) (rest : Program g)
  | assign (type : TypeWord g) (name : VariableName g) (value : Phrase g) (rest : Program g)
  | array (type : TypeWord g) (name : VariableName g) (first : Phrase g) (more : List (Phrase g))
      (rest : Program g)
  | whileLoop (condition : Phrase g) (body rest : Program g)
  | doLoop (body : Program g) (condition : Phrase g) (rest : Program g)
  | forLoop (isCLike : g = .cLike) (initialization condition update : Phrase g)
      (body rest : Program g)
  | branch (condition : Phrase g) (body rest : Program g)
  | branchElse (condition : Phrase g) (body other rest : Program g)

namespace Program

variable {g : Grammar}

def key (text : String) : Token := ⟨.keyword, text⟩

def mark (text : String) : Token := ⟨.separator, text⟩

/-- The dimensions of an array in their brackets. -/
def brackets (dimensions : List (Phrase g)) : List Token :=
  dimensions.flatMap fun d => mark "[" :: (d.tokens ++ [mark "]"])

/-- What stands between the parentheses of a counting loop, and the closing one. -/
def clauses (initialization condition update : Phrase g) : List Token :=
  initialization.tokens ++ mark ";" ::
    (condition.tokens ++ mark ";" :: (update.tokens ++ [mark ")"]))

def tokens : Program g → List Token
  | nil => []
  | simple phrase rest => phrase.tokens ++ mark ";" :: rest.tokens
  | declare type name rest => key type.text :: ⟨.identifier, name.text⟩ :: mark ";" :: rest.tokens
  | assign type name value rest =>
    key type.text :: ⟨.identifier, name.text⟩ :: ⟨.operator, "="⟩ ::
      (value.tokens ++ mark ";" :: rest.tokens)
  | array type name first more rest =>
    key type.text :: ⟨.identifier, name.text⟩ ::
      (brackets (first :: more) ++ mark ";" :: rest.tokens)
  | whileLoop condition body rest =>
    key "while" :: mark "(" :: (condition.tokens ++ mark ")" :: mark "\x7b" ::
      (body.tokens ++ mark "\x7d" :: rest.tokens))
  | doLoop body condition rest =>
    key "do" :: mark "\x7b" :: (body.tokens ++ mark "\x7d" :: key "while" :: mark "(" ::
      (condition.tokens ++ mark ")" :: mark ";" :: rest.tokens))
  | forLoop _ initialization condition update body rest =>
    key "for" :: mark "(" :: (clauses initialization condition update ++ mark "\x7b" ::
      (body.tokens ++ mark "\x7d" :: rest.tokens))
  | branch condition body rest =>
    key "if" :: mark "(" :: (condition.tokens ++ mark ")" :: mark "\x7b" ::
      (body.tokens ++ mark "\x7d" :: rest.tokens))
  | branchElse condition body other rest =>
    key "if" :: mark "(" :: (condition.tokens ++ mark ")" :: mark "\x7b" ::
      (body.tokens ++ mark "\x7d" :: key "else" :: mark "\x7b" ::
        (other.tokens ++ mark "\x7d" :: rest.tokens)))

/-- The loops and conditionals, as the statements nest. -/
def nesting : Program g → Nesting
  | nil => .nil
  | simple _ rest | declare _ _ rest | assign _ _ _ rest | array _ _ _ _ rest => rest.nesting
  | whileLoop _ body rest => .loop .whileLoop body.nesting rest.nesting
  | doLoop body _ rest => .loop .doWhile body.nesting rest.nesting
  | forLoop _ _ _ _ body rest => .loop .forLoop body.nesting rest.nesting
  | branch _ body rest => .branch body.nesting rest.nesting
  | branchElse _ body other rest => .branch body.nesting (.branch other.nesting rest.nesting)

/-- The numbers of dimensions of the arrays, from left to right. -/
def ranks : Program g → List Nat
  | nil => []
  | simple _ rest | declare _ _ rest | assign _ _ _ rest => rest.ranks
  | array _ _ _ more rest => (more.length + 1) :: rest.ranks
  | whileLoop _ body rest | doLoop body _ rest | forLoop _ _ _ _ body rest
  | branch _ body rest => body.ranks ++ rest.ranks
  | branchElse _ body other rest => body.ranks ++ (other.ranks ++ rest.ranks)

/-! ## The nodes of a program -/

/-- The header of a loop by its condition: where headers are positional, the token read is the
parenthesis. -/
def conditionHeader (g : Grammar) : LoopHeader :=
  match g.headerStyle with
  | .positional => { condition := some "(" }
  | .structured => {}

/-- The parenthesis before a loop's condition, where it is a node of its own. -/
def opening (g : Grammar) : List String :=
  match g.headerStyle with
  | .positional => []
  | .structured => ["("]

/-- The node of a statement with a block: what stands before the block, the block, its brace. -/
def block (kind : NodeKind) (label : String) (before : List String) (body : Forest) : Forest :=
  .cons kind (some label) (.expressions before ++ (body ++ .expressions ["\x7d"])) .nil

/-- The first tokens of a counting loop's parentheses are taken for its header. -/
def positionalHeader (clauses : List Token) : LoopHeader where
  initialization := some "("
  condition := clauses[0]?.map (·.text)
  update := clauses[1]?.map (·.text)

def declaration (type : TypeWord g) (name : VariableName g) : Forest :=
  .leaf (.typeDeclaration { typeName := type.text, name := some name.text }) type.text

def arrayDeclaration (type : TypeWord g) (name : VariableName g) (dimensions : List Dimension) :
    Forest :=
  .cons
    (.typeDeclaration
      { typeName := type.text, name := some name.text, isArray := true,
        isTwoDimensional := dimensions.length == 2 })
    (some type.text) (.array name.text dimensions) .nil

def dimensionsOf (dimensions : List (Phrase g)) : List Dimension :=
  dimensions.map fun d => .ofTokens d.tokens

def forest : Program g → Forest
  | nil => .nil
  | simple phrase rest => .expressions (phrase.texts ++ [";"]) ++ rest.forest
  | declare type name rest => declaration type name ++ (.expressions [";"] ++ rest.forest)
  | assign type name value rest =>
    declaration type name ++ (.expressions ("=" :: (value.texts ++ [";"])) ++ rest.forest)
  | array type name first more rest =>
    arrayDeclaration type name (dimensionsOf (first :: more)) ++
      (.expressions [";"] ++ rest.forest)
  | whileLoop condition body rest =>
    block (.loop .whileLoop (conditionHeader g)) "while"
      (opening g ++ (condition.texts ++ [")", "\x7b"])) body.forest ++ rest.forest
  | doLoop body condition rest =>
    block (.loop .doWhile {}) "do" ["\x7b"] body.forest ++
      (.expressions (opening g ++ (condition.texts ++ [")", ";"])) ++ rest.forest)
  | forLoop _ initialization condition update body rest =>
    block (.loop .forLoop (positionalHeader (clauses initialization condition update))) "for"
      (((clauses initialization condition update).drop 2).map (·.text) ++ ["\x7b"])
      body.forest ++ rest.forest
  | branch condition body rest =>
    block .conditional "if" ("(" :: (condition.texts ++ [")", "\x7b"])) body.forest ++ rest.forest
  | branchElse condition body other rest =>
    block .conditional "if" ("(" :: (condition.texts ++ [")", "\x7b"])) body.forest ++
      (block .conditional "else" ["\x7b"] other.forest ++ rest.forest)

end Program

namespace Forest

@[simp] theorem nesting_expressions (texts : List String) :
    (expressions texts).nesting = .nil := by
  induction texts with
  | nil => rfl
  | cons text texts ih => exact ih

theorem collect_expressions {α : Type} {f : NodeKind → Option α} (h : f .expression = none)
    (texts : List String) : (expressions texts).collect f = [] := by
  induction texts with
  | nil => rfl
  | cons text texts ih =>
    rw [expressions, collect, h, ih]
    rfl

theorem collect_array {α : Type} {f : NodeKind → Option α} (h : f .literal = none)
    (label : String) (shape : Shape) :
    (array label shape.dimensions).collect f = (f (.arrayDeclaration shape)).toList := by
  have hl : ∀ sizes : List UInt64, (array.literals sizes).collect f = [] := by
    intro sizes
    induction sizes with
    | nil => rfl
    | cons size sizes ih =>
      rw [array.literals, collect, h, ih]
      rfl
  have hshape : Shape.ofList? shape.dimensions = some shape := dif_neg shape.nonempty
  rw [array, hshape]
  dsimp only
  rw [collect, hl]
  exact List.append_nil _

@[simp] theorem nesting_array (label : String) (dimensions : List Dimension) :
    (array label dimensions).nesting = .nil := by
  have hl : ∀ sizes : List UInt64, (array.literals sizes).nesting = .nil := by
    intro sizes
    induction sizes with
    | nil => rfl
    | cons size sizes ih => exact ih
  unfold array
  split
  · rfl
  · rw [nesting, hl]
    rfl

end Forest

namespace Program

variable {g : Grammar}

@[simp] theorem nesting_block (kind : NodeKind) (label : String) (before : List String)
    (body : Forest) : (block kind label before body).nesting = kind.nest body.nesting := by
  simp [block, Forest.nesting]

/-- The nodes nest as the statements do. -/
theorem nesting_forest (p : Program g) : p.forest.nesting = p.nesting := by
  induction p with
  | nil => rfl
  | simple phrase rest ih => simp [forest, nesting, ih]
  | declare type name rest ih =>
    simp [forest, nesting, declaration, Forest.leaf, Forest.nesting, NodeKind.nest, ih]
  | assign type name value rest ih =>
    simp [forest, nesting, declaration, Forest.leaf, Forest.nesting, NodeKind.nest, ih]
  | array type name first more rest ih =>
    simp [forest, nesting, arrayDeclaration, Forest.nesting, NodeKind.nest, ih]
  | whileLoop condition body rest ihb ihr => simp [forest, nesting, NodeKind.nest, ihb, ihr]
  | doLoop body condition rest ihb ihr => simp [forest, nesting, NodeKind.nest, ihb, ihr]
  | forLoop hg i c u body rest ihb ihr => simp [forest, nesting, NodeKind.nest, ihb, ihr]
  | branch condition body rest ihb ihr => simp [forest, nesting, NodeKind.nest, ihb, ihr]
  | branchElse condition body other rest ihb iho ihr =>
    simp [forest, nesting, NodeKind.nest, ihb, iho, ihr]

/-- What nodes have by the rank of an array, and other nodes of a program do not have. -/
structure OfRank {α : Type} (f : NodeKind → Option α) (r : Nat → Option α) : Prop where
  array : ∀ shape : Shape, f (.arrayDeclaration shape) = r shape.rank
  literal : f .literal = none
  expression : f .expression = none
  type : ∀ declaration, f (.typeDeclaration declaration) = none
  loop : ∀ form header, f (.loop form header) = none
  conditional : f .conditional = none

variable {α : Type} {f : NodeKind → Option α} {r : Nat → Option α}

theorem collect_block {kind : NodeKind} (hk : f kind = none) (he : f .expression = none)
    (label : String) (before : List String) (body : Forest) :
    (block kind label before body).collect f = body.collect f := by
  rw [block, Forest.collect, hk, Forest.collect_append, Forest.collect_append,
    Forest.collect_expressions he, Forest.collect_expressions he]
  simp [Forest.collect]

theorem collect_declaration (h : OfRank f r) (type : TypeWord g) (name : VariableName g) :
    (declaration type name).collect f = [] := by
  rw [declaration, Forest.leaf, Forest.collect, h.type]
  rfl

theorem collect_arrayDeclaration (h : OfRank f r) (type : TypeWord g) (name : VariableName g)
    (first : Phrase g) (more : List (Phrase g)) :
    (arrayDeclaration type name (dimensionsOf (first :: more))).collect f =
      (r (more.length + 1)).toList := by
  let shape : Shape := ⟨dimensionsOf (first :: more), List.cons_ne_nil _ _⟩
  have hrank : shape.rank = more.length + 1 := List.length_map _
  rw [arrayDeclaration, Forest.collect, h.type, Forest.collect_array h.literal _ shape, h.array,
    hrank]
  exact List.append_nil _

/-- What the nodes of a program have by the ranks of its arrays. -/
theorem collect_forest (h : OfRank f r) (p : Program g) :
    p.forest.collect f = p.ranks.filterMap r := by
  have he := Forest.collect_expressions h.expression
  induction p with
  | nil => rfl
  | simple phrase rest ih =>
    simp only [forest, ranks, Forest.collect_append, he, ih, List.nil_append]
  | declare type name rest ih | assign type name value rest ih =>
    simp only [forest, ranks, Forest.collect_append, collect_declaration h, he, ih, List.nil_append]
  | array type name first more rest ih =>
    simp only [forest, ranks, Forest.collect_append, collect_arrayDeclaration h, he, ih,
      List.nil_append, List.filterMap_cons]
    cases r (more.length + 1) <;> rfl
  | whileLoop condition body rest ihb ihr | forLoop hg i c u body rest ihb ihr =>
    simp only [forest, ranks, Forest.collect_append, collect_block (h.loop _ _) h.expression, ihb,
      ihr, List.filterMap_append]
  | doLoop body condition rest ihb ihr =>
    simp only [forest, ranks, Forest.collect_append, collect_block (h.loop _ _) h.expression, he,
      ihb, ihr, List.filterMap_append, List.nil_append]
  | branch condition body rest ihb ihr =>
    simp only [forest, ranks, Forest.collect_append, collect_block h.conditional h.expression, ihb,
      ihr, List.filterMap_append]
  | branchElse condition body other rest ihb iho ihr =>
    simp only [forest, ranks, Forest.collect_append, collect_block h.conditional h.expression, ihb,
      iho, ihr, List.filterMap_append]

end Program

end GrowthOrder
