import GrowthOrder.Proofs.Draft.Placement
import GrowthOrder.Token.Scan
import Mathlib

/-!
# What stands below what in a tree that is read

The kind of a node decides where it can stand and which nodes can stand right below it. Scopes stand
in scopes and hold whatever is read while they are open; a loop with a structured header holds its
clauses and nothing else; below all other kinds there is only what their own construct put there.
Both estimates rely on this: they pass over what does not stand where they look for it.
-/
namespace GrowthOrder

namespace NodeKind

/-- The clauses of a structured header. -/
def isClause : NodeKind → Bool
  | initialization | condition | update => true
  | _ => false

def isForLoop : NodeKind → Bool
  | loop .forLoop _ => true
  | _ => false

/-- The scopes but for the root. -/
def isInnerScope : NodeKind → Bool
  | conditional | functionDeclaration _ | loop _ _ => true
  | _ => false

/-- The kinds that have nothing below them. -/
def isTerminal : NodeKind → Bool
  | expression | literal | returnStatement | newInstance | specialReference | typedef | sizeof
  | unknown => true
  | _ => false

/-- Where a node of a kind can stand below the root; `inFor` tells whether it is right below a
counting loop. -/
def Stands (g : Grammar) (inFor : Bool) : NodeKind → Prop
  | program | block => False
  | initialization | condition | update => g = .javaLike ∧ inFor = true
  | _ => True

/-- What can stand right below a node of a kind, from left to right. -/
def Admits (g : Grammar) (row : List (NodeKind × Option String)) : NodeKind → Prop
  | program | block | conditional | functionDeclaration _ | loop .whileLoop _ | loop .doWhile _ =>
    True
  | loop .forLoop _ =>
    g = .javaLike → row.map Prod.fst <+: [initialization, condition, update]
  | typeDeclaration d =>
    if d.isArray then
      ∃ shape label, row = [(arrayDeclaration shape, label)] ∧
        (d.isTwoDimensional = true ↔ shape.rank = 2)
    else d.isTwoDimensional = false ∧ row = []
  | arrayDeclaration shape =>
    row = shape.literals.map fun n => (literal, some (toString n.toNat))
  | functionCall _ | recursiveCall _ => ∀ n ∈ row, n.1 = expression ∨ n.1.isCall
  | initialization | condition | update => ∀ n ∈ row, n.1 = expression
  | _ => row = []

section Kinds

variable {g : Grammar} {inFor : Bool} {row : List (NodeKind × Option String)} {k : NodeKind}

theorem stands_clause (hk : k.isClause) : k.Stands g inFor ↔ g = .javaLike ∧ inFor = true := by
  cases k with
  | initialization | condition | update => exact Iff.rfl
  | _ => cases hk

theorem admits_clause (hk : k.isClause) : k.Admits g row ↔ ∀ n ∈ row, n.1 = expression := by
  cases k with
  | initialization | condition | update => exact Iff.rfl
  | _ => cases hk

theorem admits_call (hk : k.isCall) :
    k.Admits g row ↔ ∀ n ∈ row, n.1 = expression ∨ n.1.isCall := by
  cases k with
  | functionCall | recursiveCall => exact Iff.rfl
  | _ => cases hk

theorem admits_terminal (hk : k.isTerminal) : k.Admits g row ↔ row = [] := by
  cases k with
  | expression | literal | returnStatement | newInstance | specialReference | typedef | sizeof
  | unknown => exact Iff.rfl
  | _ => cases hk

end Kinds

/-- A node stands where its kind can, and has below it what its kind admits. -/
structure Formed (g : Grammar) (above : List NodeKind) (kind : NodeKind) (label : Option String)
    (below : Forest) : Prop where
  stands : kind.Stands g (above.head?.any isForLoop)
  admits : kind.Admits g below.row

variable {g : Grammar} {above : List NodeKind} {k : NodeKind} {l : Option String}

theorem formed_atom (h : k.isAtom) : Formed g above k l .nil := by
  cases k with
  | typeDeclaration d =>
    have hd : d.isArray = false ∧ d.isTwoDimensional = false := by
      simpa [isAtom] using h
    refine ⟨trivial, ?_⟩
    rw [Admits, hd.1, if_neg Bool.false_ne_true]
    exact ⟨hd.2, rfl⟩
  | returnStatement | newInstance | specialReference | typedef | sizeof | expression | unknown =>
    exact ⟨trivial, rfl⟩
  | _ => cases h

end NodeKind

namespace Forest

open NodeKind (Formed)

variable {g : Grammar} {above : List NodeKind}

theorem row_expressions (texts : List String) :
    (expressions texts).row = texts.map fun text => (.expression, some text) := by
  induction texts with
  | nil => rfl
  | cons text texts ih => rw [expressions, row, ih, List.map_cons]; rfl

theorem formed_expressions (texts : List String) :
    (expressions texts).Each (Formed g) above := by
  induction texts with
  | nil => trivial
  | cons text texts ih => exact ⟨⟨trivial, rfl⟩, trivial, ih⟩

theorem row_clauses_prefix (kinds : List (NodeKind × String)) (texts : List (List String)) :
    (clauses kinds texts).row.map Prod.fst <+: kinds.map fun k => k.1.bare := by
  induction kinds generalizing texts with
  | nil => exact List.nil_prefix
  | cons k kinds ih =>
    cases texts with
    | nil => exact List.nil_prefix
    | cons text texts => exact List.cons_prefix_cons.2 ⟨rfl, ih texts⟩

/-- Each clause holds the texts of its tokens. -/
theorem formed_clauses (ha : above.head?.any NodeKind.isForLoop)
    {kinds : List (NodeKind × String)} (hk : ∀ k ∈ kinds, k.1.isClause)
    (texts : List (List String)) : (clauses kinds texts).Each (Formed .javaLike) above := by
  induction kinds generalizing texts with
  | nil => trivial
  | cons k kinds ih =>
    cases texts with
    | nil => trivial
    | cons text texts =>
      have hclause := hk k List.mem_cons_self
      have hrow : ∀ n ∈ (expressions text).row, n.1 = .expression := by
        rw [row_expressions]
        intro n hn
        obtain ⟨word, -, rfl⟩ := List.mem_map.1 hn
        rfl
      have hstands := (NodeKind.stands_clause hclause).2 ⟨rfl, ha⟩
      have hadmits := (NodeKind.admits_clause (g := .javaLike) hclause).2 hrow
      exact ⟨⟨hstands, hadmits⟩, formed_expressions text,
        ih (fun k hk' => hk k (List.mem_cons_of_mem _ hk')) texts⟩

theorem row_literals (sizes : List UInt64) :
    (array.literals sizes).row = sizes.map fun n => (.literal, some (toString n.toNat)) := by
  induction sizes with
  | nil => rfl
  | cons size sizes ih => rw [array.literals, row, ih, List.map_cons]; rfl

theorem formed_literals (sizes : List UInt64) : (array.literals sizes).Each (Formed g) above := by
  induction sizes with
  | nil => trivial
  | cons size sizes ih => exact ⟨⟨trivial, rfl⟩, trivial, ih⟩

/-- Dimensions, if there are any, make an array. -/
theorem array_of_ne_nil (label : String) {dimensions : List Dimension} (h : dimensions ≠ []) :
    array label dimensions =
      cons (.arrayDeclaration ⟨dimensions, h⟩) (some label)
        (array.literals (Shape.literals ⟨dimensions, h⟩)) nil := by
  rw [array, Shape.ofList?, dif_neg h]

theorem formed_array (label : String) (dimensions : List Dimension) :
    (array label dimensions).Each (Formed g) above := by
  by_cases h : dimensions = []
  · subst h
    trivial
  · rw [array_of_ne_nil label h]
    exact ⟨⟨trivial, row_literals _⟩, formed_literals _, trivial⟩

theorem formed_callKind (enclosing : Option String) (name : String) {label : Option String}
    {below : Forest} (h : ∀ n ∈ below.row, n.1 = .expression ∨ n.1.isCall) :
    Formed g above (Arguments.callKind enclosing name) label below := by
  refine ⟨?_, (NodeKind.admits_call (NodeKind.isCall_callKind enclosing name)).2 h⟩
  unfold Arguments.callKind
  split <;> trivial

theorem row_arguments (enclosing : Option String) (arguments : Arguments) :
    ∀ n ∈ (arguments.forest enclosing).row, n.1 = .expression ∨ n.1.isCall := by
  induction arguments with
  | done closed =>
    intro n hn
    cases hn
  | word text rest ih =>
    intro n hn
    rcases List.mem_cons.1 hn with rfl | hn
    · exact .inl rfl
    · exact ih n hn
  | call name inner rest _ ih =>
    intro n hn
    rcases List.mem_cons.1 hn with rfl | hn
    · right
      rw [NodeKind.isCall_bare]
      exact NodeKind.isCall_callKind enclosing name
    · exact ih n hn

theorem formed_arguments (enclosing : Option String) (arguments : Arguments) :
    (arguments.forest enclosing).Each (Formed g) above := by
  induction arguments generalizing above with
  | done closed => trivial
  | word text rest ih => exact ⟨⟨trivial, rfl⟩, trivial, ih⟩
  | call name inner rest ihi ihr =>
    exact ⟨formed_callKind enclosing name (row_arguments enclosing inner), ihi, ihr⟩

end Forest

namespace NodeKind

variable {g : Grammar} {above : List NodeKind} {c : Construct} {F : Forest}

theorem formed_nodes? (hc : c.Regular g) (h : c.nodes? (enclosingName above) = some F) :
    F.Each (Formed g) above := by
  cases c with
  | leaf kind label =>
    cases h
    exact ⟨formed_atom hc, trivial, trivial⟩
  | forLoop label header =>
    cases header with
    | clauses texts =>
      cases h
      have hg : g = .javaLike := by
        cases g with
        | cLike => cases hc
        | javaLike => rfl
      subst hg
      have hrow := Forest.row_clauses_prefix ForHeader.clauseKinds texts
      exact ⟨⟨trivial, fun _ => hrow⟩, Forest.formed_clauses rfl (by decide) texts, trivial⟩
    | absent =>
      cases h
      exact ⟨⟨trivial, fun _ => List.nil_prefix⟩, trivial, trivial⟩
    | positional => cases h
    | cut => cases h
  | typedArray typeName name dimensions =>
    cases h
    refine ⟨⟨trivial, ?_⟩, Forest.formed_array .., trivial⟩
    have hrow := congrArg Forest.row (Forest.array_of_ne_nil (name.getD typeName) hc)
    rw [Admits, if_pos rfl]
    exact ⟨⟨dimensions, hc⟩, some (name.getD typeName), hrow, beq_iff_eq⟩
  | bareArray name dimensions =>
    cases h
    exact Forest.formed_array ..
  | call name arguments =>
    cases h
    exact Forest.formed_arguments (enclosingName above) (.call name arguments (.done true))
  | scope => cases h
  | close => cases h
  | whileLoop => cases h

theorem formed_scope? {kind : NodeKind} {label : String} (hc : c.Regular g)
    (h : c.scope? = some (kind, label)) (below : Forest) :
    Formed g above kind (some label) below := by
  cases c with
  | scope opener text =>
    cases h
    change kind.isOpener at hc
    unfold isOpener at hc
    split at hc
    · exact ⟨trivial, trivial⟩
    · exact ⟨trivial, trivial⟩
    · exact ⟨trivial, trivial⟩
    · cases hc
  | forLoop text header =>
    cases header with
    | positional i c u =>
      cases h
      -- the grammar of structured headers reads no positional ones
      refine ⟨trivial, fun hg => ?_⟩
      subst hg
      cases hc
    | clauses => cases h
    | absent => cases h
    | cut => cases h
  | whileLoop text afterBrace condition =>
    cases condition with
    | unread =>
      cases h
      exact ⟨trivial, trivial⟩
    | token text =>
      cases h
      exact ⟨trivial, trivial⟩
    | cut => cases h
  | leaf => cases h
  | close => cases h
  | typedArray => cases h
  | bareArray => cases h
  | call => cases h

theorem formed_bare (above : List NodeKind) (kind : NodeKind) (label : Option String)
    (below : Forest) : Formed g (above.map bare) kind.bare label below ↔
      Formed g above kind label below := by
  have hhead := any_head_bare (f := isForLoop) (apply_bare isForLoop fun _ => rfl) above
  have hstands := apply_bare (Stands g (above.head?.any isForLoop)) (fun _ => rfl) kind
  have hadmits := apply_bare (Admits g below.row) (fun _ => rfl) kind
  constructor
  · rintro ⟨hs, ha⟩
    rw [hhead, hstands] at hs
    rw [hadmits] at ha
    exact ⟨hs, ha⟩
  · rintro ⟨hs, ha⟩
    refine ⟨?_, ?_⟩
    · rwa [hhead, hstands]
    · rwa [hadmits]

theorem nodeLaw_formed (g : Grammar) : NodeLaw g (Formed g) where
  bare := formed_bare
  nodes _ _ _ _ := formed_nodes?
  scope _ _ _ _ _ := formed_scope?

end NodeKind

namespace SyntaxTree

/-- The forms of the nodes of a tree that is read in a grammar. -/
structure WellFormed (g : Grammar) (t : SyntaxTree) : Prop where
  program : ∀ u, t.kind u = .program ↔ u = 0
  block : ∀ u, t.kind u ≠ .block
  scope : ∀ u p, (t.kind u).isInnerScope → t.parent u = some p →
    t.kind p = .program ∨ (t.kind p).isInnerScope
  call : ∀ u, (t.kind u).isCall → ∀ c ∈ t.children u,
    t.kind c = .expression ∨ (t.kind c).isCall
  declaration : ∀ u d, t.kind u = .typeDeclaration d →
    (d.isArray = true ↔ t.children u ≠ []) ∧
    (d.isArray = true → ∃ c shape, t.children u = [c] ∧ t.kind c = .arrayDeclaration shape ∧
      (d.isTwoDimensional = true ↔ shape.rank = 2)) ∧
    (d.isArray = false → d.isTwoDimensional = false)
  /-- An array has a literal for each dimension that is a number. -/
  array : ∀ u shape, t.kind u = .arrayDeclaration shape →
    (t.children u).map (fun c => (t.kind c, t.label c)) =
      shape.literals.map fun n => (.literal, some (toString n.toNat))
  clause : ∀ u, (t.kind u).isClause →
    g = .javaLike ∧ (∃ p header, t.parent u = some p ∧ t.kind p = .loop .forLoop header) ∧
    ∀ c ∈ t.children u, t.kind c = .expression
  /-- A loop with a structured header has its clauses below it and nothing else. -/
  forLoop : ∀ u header, g = .javaLike → t.kind u = .loop .forLoop header →
    (t.children u).map t.kind <+: [.initialization, .condition, .update]
  terminal : ∀ u, (t.kind u).isTerminal → t.children u = []

variable {d : Dialect} {g : Grammar} {tokens : List Token} {t : SyntaxTree} {c u : Nat}

theorem mem_row (hc : c ∈ t.children u) : ((t.kind c).bare, t.label c) ∈ t.row u :=
  List.mem_map.2 ⟨c, hc, rfl⟩

/-- Where no loops are, the kinds of the children are bare. -/
theorem map_children_eq_row (h : ∀ n ∈ t.row u, n.1.isLoop = false) :
    (t.children u).map (fun c => (t.kind c, t.label c)) = t.row u := by
  rw [row]
  refine List.map_congr_left fun c hc => ?_
  have hloop : (t.kind c).bare.isLoop = false := h _ (mem_row hc)
  rcases NodeKind.bare_cases (t.kind c) with hk | ⟨header, hk⟩
  · rw [hk]
  · rw [hk] at hloop
    cases hloop

theorem stands_ofTokens (h : ofTokens d tokens = .ok t) (hu : 0 < u) :
    (t.kind u).Stands d.grammar (((t.lineage u).map t.kind).head?.any NodeKind.isForLoop) := by
  rcases Nat.lt_or_ge u t.size with hlt | hge
  · obtain ⟨below, hformed, -⟩ := (NodeKind.nodeLaw_formed d.grammar).holds h hu hlt
    exact hformed.stands
  · rw [kind_of_size_le hge]
    trivial

theorem admits_ofTokens (h : ofTokens d tokens = .ok t) (u : Nat) :
    (t.kind u).Admits d.grammar (t.row u) := by
  rcases Nat.eq_zero_or_pos u with rfl | hpos
  · rw [(arranged_ofTokens h).kind_root]
    trivial
  · rcases Nat.lt_or_ge u t.size with hlt | hge
    · obtain ⟨below, hformed, hrow⟩ := (NodeKind.nodeLaw_formed d.grammar).holds h hpos hlt
      rw [hrow]
      exact hformed.admits
    · rw [kind_of_size_le hge, row, children_of_size_le hge]
      rfl

/-! ## The children of a node, by what its kind admits -/

theorem children_of_admits_call (hk : (t.kind u).isCall)
    (ha : (t.kind u).Admits g (t.row u)) (hc : c ∈ t.children u) :
    t.kind c = .expression ∨ (t.kind c).isCall := by
  rcases (NodeKind.admits_call hk).1 ha _ (mem_row hc) with h | h
  · exact .inl ((NodeKind.bare_eq_iff rfl).1 h)
  · rw [NodeKind.isCall_bare] at h
    exact .inr h

theorem children_of_admits_declaration {d : Declaration}
    (ha : (NodeKind.typeDeclaration d).Admits g (t.row u)) :
    (d.isArray = true ↔ t.children u ≠ []) ∧
    (d.isArray = true → ∃ c shape, t.children u = [c] ∧ t.kind c = .arrayDeclaration shape ∧
      (d.isTwoDimensional = true ↔ shape.rank = 2)) ∧
    (d.isArray = false → d.isTwoDimensional = false) := by
  rw [NodeKind.Admits] at ha
  cases harray : d.isArray with
  | true =>
    rw [harray, if_pos rfl] at ha
    obtain ⟨shape, label, hrow, hrank⟩ := ha
    obtain ⟨c, hchildren, hc⟩ := List.map_eq_singleton_iff.1 hrow
    have hkind : t.kind c = .arrayDeclaration shape :=
      (NodeKind.bare_eq_iff rfl).1 (Prod.mk.inj hc).1
    refine ⟨?_, fun _ => ⟨c, shape, hchildren, hkind, hrank⟩, (fun h => by cases h)⟩
    rw [hchildren]
    exact iff_of_true rfl (List.cons_ne_nil _ _)
  | false =>
    rw [harray, if_neg Bool.false_ne_true] at ha
    have hchildren : t.children u = [] := List.map_eq_nil_iff.1 ha.2
    refine ⟨?_, (fun h => by cases h), fun _ => ha.1⟩
    rw [hchildren]
    exact iff_of_false Bool.false_ne_true fun h => h rfl

theorem children_of_admits_array {shape : Shape}
    (ha : (NodeKind.arrayDeclaration shape).Admits g (t.row u)) :
    (t.children u).map (fun c => (t.kind c, t.label c)) =
      shape.literals.map fun n => (.literal, some (toString n.toNat)) := by
  have hrow : t.row u = shape.literals.map fun n => (.literal, some (toString n.toNat)) := ha
  rw [map_children_eq_row, hrow]
  intro n hn
  rw [hrow] at hn
  obtain ⟨size, -, rfl⟩ := List.mem_map.1 hn
  rfl

theorem children_of_admits_clause (hk : (t.kind u).isClause)
    (ha : (t.kind u).Admits g (t.row u)) (hc : c ∈ t.children u) : t.kind c = .expression := by
  have hbare := (NodeKind.admits_clause hk).1 ha _ (mem_row hc)
  exact (NodeKind.bare_eq_iff rfl).1 hbare

theorem children_of_admits_forLoop {header : LoopHeader} (hg : g = .javaLike)
    (ha : (NodeKind.loop .forLoop header).Admits g (t.row u)) :
    (t.children u).map t.kind <+: [.initialization, .condition, .update] := by
  have hprefix : (t.row u).map Prod.fst <+: [.initialization, .condition, .update] := ha hg
  have hloops : ∀ n ∈ t.row u, n.1.isLoop = false := by
    intro n hn
    have hmem := hprefix.subset (List.mem_map_of_mem hn)
    have hall : ∀ k ∈ [NodeKind.initialization, .condition, .update], k.isLoop = false := by decide
    exact hall _ hmem
  rw [← map_children_eq_row hloops, List.map_map] at hprefix
  exact hprefix

theorem children_of_admits_terminal (hk : (t.kind u).isTerminal)
    (ha : (t.kind u).Admits g (t.row u)) : t.children u = [] := by
  have hrow := (NodeKind.admits_terminal hk).1 ha
  exact List.map_eq_nil_iff.1 hrow

/-! ## Where a node stands -/

theorem kind_eq_program_iff (h : ofTokens d tokens = .ok t) (u : Nat) :
    t.kind u = .program ↔ u = 0 := by
  constructor
  · intro hu
    rcases Nat.eq_zero_or_pos u with h0 | hpos
    · exact h0
    · have hs := stands_ofTokens h hpos
      rw [hu] at hs
      exact hs.elim
  · rintro rfl
    exact (arranged_ofTokens h).kind_root

theorem kind_ne_block (h : ofTokens d tokens = .ok t) (u : Nat) : t.kind u ≠ .block := by
  intro hu
  rcases Nat.eq_zero_or_pos u with rfl | hpos
  · rw [(arranged_ofTokens h).kind_root] at hu
    cases hu
  · have hs := stands_ofTokens h hpos
    rw [hu] at hs
    exact hs.elim

theorem exists_forLoop_of_clause (h : ofTokens d tokens = .ok t) (hu : (t.kind u).isClause) :
    d.grammar = .javaLike ∧ ∃ p header, t.parent u = some p ∧ t.kind p = .loop .forLoop header := by
  have hpos : 0 < u := by
    rcases Nat.eq_zero_or_pos u with rfl | hpos
    · rw [(arranged_ofTokens h).kind_root] at hu
      cases hu
    · exact hpos
  obtain ⟨hg, hhead⟩ := (NodeKind.stands_clause hu).1 (stands_ofTokens h hpos)
  refine ⟨hg, ?_⟩
  cases hp : t.parent u with
  | none =>
    rw [lineage_of_none hp] at hhead
    cases hhead
  | some p =>
    rw [lineage_of_parent hp] at hhead
    have hloop : (t.kind p).isForLoop := hhead
    unfold NodeKind.isForLoop at hloop
    split at hloop
    · next header hk => exact ⟨p, header, rfl, hk⟩
    · cases hloop

theorem isInnerScope_of_parent (ht : t.Arranged) (hb : ∀ u, t.kind u ≠ .block) {p : Nat}
    (hu : (t.kind u).isInnerScope) (hp : t.parent u = some p) :
    t.kind p = .program ∨ (t.kind p).isInnerScope := by
  have hscope : (t.kind u).isScope := by
    cases hk : t.kind u with
    | conditional | functionDeclaration | loop => rfl
    | _ =>
      rw [hk] at hu
      cases hu
  have hparent := ht.scope u p hscope hp
  cases hk : t.kind p with
  | program => exact .inl rfl
  | conditional | functionDeclaration | loop => exact .inr rfl
  | block => exact absurd hk (hb p)
  | _ =>
    rw [hk] at hparent
    cases hparent

/-- Every tree that is read is well formed. -/
theorem wellFormed_ofTokens (h : ofTokens d tokens = .ok t) : t.WellFormed d.grammar where
  program := kind_eq_program_iff h
  block := kind_ne_block h
  scope u p hu hp := isInnerScope_of_parent (arranged_ofTokens h) (kind_ne_block h) hu hp
  call u hu c hc := children_of_admits_call hu (admits_ofTokens h u) hc
  declaration u d hu := children_of_admits_declaration (hu ▸ admits_ofTokens h u)
  array u shape hu := children_of_admits_array (hu ▸ admits_ofTokens h u)
  clause u hu := by
    obtain ⟨hg, hloop⟩ := exists_forLoop_of_clause h hu
    exact ⟨hg, hloop, fun c hc => children_of_admits_clause hu (admits_ofTokens h u) hc⟩
  forLoop u header hg hu := children_of_admits_forLoop hg (hu ▸ admits_ofTokens h u)
  terminal u hu := children_of_admits_terminal hu (admits_ofTokens h u)

/-- A declared array of two dimensions, and a loop with a structured header. -/
theorem wellFormed_ofTokens_header :
    ∃ t, ofTokens { grammar := .javaLike } (Grammar.tokenize .javaLike
        "int[2][n] m; for (i : m) ;") = .ok t ∧
      (∃ c shape, t.children 1 = [c] ∧ t.kind c = .arrayDeclaration shape ∧ shape.rank = 2) ∧
      (∃ header, t.kind 5 = .loop .forLoop header) ∧
      (t.children 5).map t.kind <+: [.initialization, .condition, .update] := by
  have heval : (ofTokens { grammar := .javaLike } (Grammar.tokenize .javaLike
      "int[2][n] m; for (i : m) ;")).bind (fun t => .ok (t.kind 1, t.kind 5)) =
    .ok (.typeDeclaration ⟨"int", some "m", true, true⟩,
      .loop .forLoop ⟨some "i : m", none, none⟩) := by cbv
  obtain ⟨t, ht, hkinds⟩ := exists_of_bind_ofTokens heval
  obtain ⟨harray, hloop⟩ := Prod.mk.inj (Except.ok.inj hkinds)
  have hform := wellFormed_ofTokens ht
  obtain ⟨-, hone, -⟩ := hform.declaration 1 _ harray
  obtain ⟨c, shape, hchildren, hc, hrank⟩ := hone rfl
  exact ⟨t, ht, ⟨c, shape, hchildren, hc, hrank.1 rfl⟩, ⟨_, hloop⟩, hform.forLoop 5 _ rfl hloop⟩

end SyntaxTree

end GrowthOrder
