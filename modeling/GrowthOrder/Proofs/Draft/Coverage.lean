import GrowthOrder.Proofs.Construct.CallSites
import GrowthOrder.Proofs.Construct.Extent
import GrowthOrder.Proofs.Draft.Moves
import GrowthOrder.Proofs.Draft.Run
import GrowthOrder.Proofs.Space.Allocations
import GrowthOrder.Proofs.Time.Calls
import GrowthOrder.Report
import Mathlib

/-!
# Nodes and the tokens that they are made of

Every construct takes at least as many tokens as it makes nodes, also where the tokens end in the
middle of it: a loop with a structured header makes a node of a clause in place of the token that
ends it, an array is paid for by its first bracket, and a literal dimension by the number in it. So
at every place of a run the tree has at most one node more than tokens were read, and this one is
the root.
-/
namespace GrowthOrder

/-! ## The nodes of a construct -/

namespace Forest

theorem size_expressions (texts : List String) : (expressions texts).size = texts.length := by
  induction texts with
  | nil => rfl
  | cons text texts ih =>
    rw [expressions, size, ih, size, List.length_cons]
    omega

theorem size_clauses_le (kinds : List (NodeKind × String)) (texts : List (List String)) :
    (clauses kinds texts).size ≤ (texts.map fun clause => clause.length + 1).sum := by
  induction kinds generalizing texts with
  | nil => exact Nat.zero_le _
  | cons k kinds ih =>
    cases texts with
    | nil => exact Nat.zero_le _
    | cons clause texts =>
      have hmore := ih texts
      rw [clauses, size, size_expressions, List.map_cons, List.sum_cons]
      omega

theorem size_literals (sizes : List UInt64) : (array.literals sizes).size = sizes.length := by
  induction sizes with
  | nil => rfl
  | cons n sizes ih =>
    rw [array.literals, size, ih, size, List.length_cons]
    omega

theorem size_array_le (label : String) (dimensions : List Dimension) :
    (array label dimensions).size ≤
      dimensions.length + (dimensions.filterMap Dimension.literal?).length := by
  unfold array
  split
  · exact Nat.zero_le _
  · next shape hshape =>
    unfold Shape.ofList? at hshape
    split at hshape
    · cases hshape
    · next hne =>
      cases hshape
      have hpos := List.length_pos_iff.2 hne
      rw [size, size, size_literals, Shape.literals]
      dsimp only
      omega

theorem size_arguments_le (enclosing : Option String) (a : Arguments) :
    (a.forest enclosing).size ≤ a.taken.length := by
  induction a with
  | done closed => exact Nat.zero_le _
  | word text rest ih =>
    rw [Arguments.forest, size, size, Arguments.taken, List.length_cons]
    omega
  | call name inner rest ihi ihr =>
    rw [Arguments.forest, size, Arguments.taken, List.length_cons, List.length_cons,
      List.length_append]
    omega

end Forest

/-! ## The tokens of a construct -/

/-- A dimension is a number only if there is a token for it. -/
theorem Dimension.length_literal?_le (ts : List Token) :
    (ofTokens ts).literal?.toList.length ≤ min ts.length 1 := by
  cases ts with
  | nil => exact Nat.le_refl _
  | cons t rest =>
    rw [List.length_cons, Nat.min_eq_right (by omega)]
    cases (ofTokens (t :: rest)).literal? with
    | none => exact Nat.zero_le _
    | some size => exact Nat.le_refl _

/-- A group of brackets takes a token, and one more if its dimension is a number. -/
theorem Subscript.dimensions_le (ts : List Token) :
    (dimensions ts).2 ≤ ts.length ∧
      (dimensions ts).1.length + ((dimensions ts).1.filterMap Dimension.literal?).length ≤
        (dimensions ts).2 := by
  fun_induction dimensions ts with
  | case1 => exact ⟨Nat.le_refl _, Nat.le_refl _⟩
  | case2 t rest ht group taken more n hmore ih =>
    rw [hmore] at ih
    obtain ⟨hrange, hcount⟩ : n ≤ (rest.drop taken).length ∧
      more.length + (more.filterMap Dimension.literal?).length ≤ n := ih
    have hgroup : group.length ≤ rest.length := (List.takeWhile_prefix _).length_le
    have hliteral := Dimension.length_literal?_le group
    have htaken : taken = min (group.length + 1) rest.length := rfl
    rw [List.length_drop] at hrange
    constructor
    · rw [List.length_cons]
      omega
    · -- the number is a token of its own, also if no bracket closes behind it
      rw [List.filterMap_cons, List.length_cons]
      cases hd : (Dimension.ofTokens group).literal? with
      | none => dsimp only; omega
      | some size =>
        rw [hd, Option.toList_some, List.length_singleton] at hliteral
        dsimp only
        rw [List.length_cons]
        omega
  | case3 => exact ⟨Nat.zero_le _, Nat.le_refl _⟩

/-- A clause takes its tokens and the one that ends it. -/
theorem ForHeader.clauses?_le {most n : Nat} {ts : List Token} {texts : List (List String)}
    (h : clauses? most ts = some (texts, n)) :
    n ≤ ts.length ∧ (texts.map fun clause => clause.length + 1).sum = n := by
  induction most generalizing ts texts n with
  | zero =>
    cases h
    exact ⟨Nat.zero_le _, rfl⟩
  | succ most ih =>
    obtain ⟨⟨clause, last⟩, hclause, hmore⟩ := Option.bind_eq_some_iff.1 h
    obtain ⟨t, after, hdrop, -, -⟩ := exists_of_clause hclause
    have hlength := congrArg List.length hdrop
    rw [List.length_drop, List.length_cons] at hlength
    dsimp only at hmore
    split at hmore
    · cases hmore
      exact ⟨by omega, by simp⟩
    · obtain ⟨⟨more, n'⟩, hrest, heq⟩ := Option.map_eq_some_iff.1 hmore
      cases heq
      obtain ⟨hrange, hsum⟩ := ih hrest
      rw [List.length_drop] at hrange
      exact ⟨by omega, by rw [List.map_cons, List.sum_cons, hsum]⟩

namespace Construct

/-- A construct whose first token stands before `rest` takes `n` tokens of `rest`, and puts no more
nodes into a scope than it takes tokens. -/
structure Covered (rest : List Token) (c : Construct) (n : Nat) : Prop where
  range : n ≤ rest.length
  nodes : ∀ enclosing F, c.nodes? enclosing = some F → F.size ≤ n + 1

variable {d : Dialect} {previous : Option Token} {t : Token} {rest ts : List Token} {n : Nat}

theorem covered_leaf (hn : n ≤ rest.length) (kind : NodeKind) (label : String) :
    Covered rest (leaf kind label) n := by
  refine ⟨hn, fun enclosing F hF => ?_⟩
  cases hF
  show 1 ≤ n + 1
  omega

/-- A construct that opens or closes a scope, or is an error, puts no nodes into one. -/
theorem covered_of_no_nodes {c : Construct} (hn : n ≤ rest.length)
    (hc : ∀ enclosing, c.nodes? enclosing = none) : Covered rest c n := by
  refine ⟨hn, fun enclosing F hF => ?_⟩
  rw [hc enclosing] at hF
  cases hF

theorem covered_scope (hn : n ≤ rest.length) (kind : NodeKind) (label : String) :
    Covered rest (scope kind label) n :=
  covered_of_no_nodes hn fun _ => rfl

theorem covered_function (hn : n ≤ rest.length) (typeName name : String) (ts : List Token) :
    Covered rest (function typeName name ts) n := by
  unfold function
  split
  · exact covered_scope hn _ _
  · exact covered_leaf hn _ _

/-- Besides the node of the type there is one for each dimension at most, and one for each
number. -/
theorem covered_typedArray (hn : n ≤ rest.length) (hts : (Subscript.dimensions ts).2 ≤ n)
    (typeName : String) (name : Option String) :
    Covered rest (typedArray typeName name (Subscript.dimensions ts).1) n := by
  refine ⟨hn, fun enclosing F hF => ?_⟩
  cases hF
  have harray := Forest.size_array_le (name.getD typeName) (Subscript.dimensions ts).1
  have hcount := (Subscript.dimensions_le ts).2
  rw [Forest.size, Forest.size]
  omega

theorem covered_declarator (typeName : String) (ts : List Token) :
    Covered ts (declarator typeName ts).1 (declarator typeName ts).2 := by
  unfold declarator
  split
  · exact covered_leaf (Nat.zero_le _) _ _
  · next t rest =>
    have hone : 1 ≤ (t :: rest).length := Nat.succ_pos _
    split
    · exact covered_function hone _ _ _
    · split
      · have hrange := (Subscript.dimensions_le rest).1
        exact covered_typedArray (Nat.succ_le_succ hrange) (Nat.le_succ _) _ _
      · split
        · have hrange := (Subscript.dimensions_le (t :: rest)).1
          dsimp only
          split
          · next name after hdrop =>
            have hname : (Subscript.dimensions (t :: rest)).2 + 1 ≤ (t :: rest).length := by
              have hlength := congrArg List.length hdrop
              simp only [List.length_drop, List.length_cons] at hlength ⊢
              omega
            split
            · split
              · exact covered_function hname _ _ _
              · exact covered_typedArray hname (Nat.le_succ _) _ _
            · exact covered_typedArray hrange (Nat.le_refl _) _ _
          · exact covered_typedArray hrange (Nat.le_refl _) _ _
        · split
          · exact covered_leaf hone _ _
          · exact covered_leaf (Nat.zero_le _) _ _

/-- Tokens that are passed over make no nodes. -/
theorem Covered.skip {c : Construct} {k : Nat} (h : Covered (rest.drop k) c n)
    (hk : k ≤ rest.length) : Covered rest c (k + n) := by
  obtain ⟨hrange, hnodes⟩ := h
  rw [List.length_drop] at hrange
  refine ⟨by omega, fun enclosing F hF => ?_⟩
  have hsize := hnodes enclosing F hF
  omega

theorem covered_declaration (typeName : String) (ts : List Token) :
    Covered ts (declaration typeName ts).1 (declaration typeName ts).2 := by
  unfold declaration
  dsimp only
  refine (covered_declarator ..).skip ?_
  split
  · exact (List.takeWhile_prefix _).length_le
  · exact Nat.zero_le _

theorem covered_callSite (name : String) (hparen : nextIs rest "(") :
    Covered rest (callSite d previous name rest).1 (callSite d previous name rest).2 := by
  unfold callSite
  split
  · exact covered_scope (Nat.zero_le _) _ _
  · split
    · exact covered_leaf (Nat.zero_le _) _ _
    · split
      · exact covered_leaf (Nat.zero_le _) _ _
      · cases rest with
        | nil => cases hparen
        | cons paren rest =>
          refine ⟨Nat.succ_le_succ (Arguments.read_le d 0 rest), fun enclosing F hF => ?_⟩
          cases hF
          have hsize := Forest.size_arguments_le enclosing (Arguments.read d 0 rest).1
          have hcount := (Arguments.taken_read d 0 rest).2
          rw [Forest.size, Forest.size]
          dsimp only [List.tail_cons] at hsize ⊢
          omega

theorem covered_plain :
    Covered rest (plain d previous t rest).1 (plain d previous t rest).2 := by
  unfold plain
  split
  · exact covered_of_no_nodes (Nat.zero_le _) fun _ => rfl
  · split
    · next h => exact covered_callSite t.text (Bool.and_eq_true_iff.1 h).2
    · split
      · obtain ⟨hrange, hcount⟩ := Subscript.dimensions_le rest
        refine ⟨hrange, fun enclosing F hF => ?_⟩
        cases hF
        have harray := Forest.size_array_le t.text (Subscript.dimensions rest).1
        dsimp only
        omega
      · exact covered_leaf (Nat.zero_le _) _ _

theorem covered_forLoop (style : HeaderStyle) (label : String) (ts : List Token) :
    Covered ts (forLoop label (ForHeader.read style ts).1) (ForHeader.read style ts).2 := by
  unfold ForHeader.read
  split
  · exact covered_of_no_nodes (by simp only [List.length_cons]; omega) fun _ => rfl
  · exact covered_of_no_nodes (Nat.le_refl _) fun _ => rfl
  · exact covered_of_no_nodes (Nat.le_refl _) fun _ => rfl
  · next t rest =>
    split
    · split
      · next texts n hclauses =>
        obtain ⟨hrange, hsum⟩ := ForHeader.clauses?_le hclauses
        refine ⟨Nat.succ_le_succ hrange, fun enclosing F hF => ?_⟩
        cases hF
        -- the node of each clause stands for the token that ends it
        have hsize := Forest.size_clauses_le ForHeader.clauseKinds texts
        rw [Forest.size, Forest.size]
        omega
      · exact covered_of_no_nodes (Nat.le_refl _) fun _ => rfl
    · refine ⟨Nat.zero_le _, fun enclosing F hF => ?_⟩
      cases hF
      exact Nat.le_refl _

theorem covered_whileLoop (style : HeaderStyle) (label : String) (afterBrace : Bool)
    (ts : List Token) :
    Covered ts (whileLoop label afterBrace (Condition.read style ts).1)
      (Condition.read style ts).2 := by
  unfold Condition.read
  split
  · exact covered_of_no_nodes (Nat.zero_le _) fun _ => rfl
  · exact covered_of_no_nodes (Nat.zero_le _) fun _ => rfl
  · exact covered_of_no_nodes (Nat.succ_pos _) fun _ => rfl

theorem covered_keyword (g : Grammar) (text : String) (action : KeywordAction) :
    Covered rest (keyword g previous text rest action).1
      (keyword g previous text rest action).2 := by
  cases action with
  | forLoop => exact covered_forLoop g.headerStyle text rest
  | whileLoop => exact covered_whileLoop g.headerStyle text _ rest
  | typeDeclaration => exact covered_declaration text rest
  | newInstance =>
    unfold keyword
    dsimp only
    split
    · split
      · exact covered_leaf (Nat.succ_pos _) _ _
      · exact covered_leaf (Nat.zero_le _) _ _
    · exact covered_leaf (Nat.zero_le _) _ _
  | doLoop => exact covered_scope (Nat.zero_le _) _ _
  | conditional => exact covered_scope (Nat.zero_le _) _ _
  | returnStatement => exact covered_leaf (Nat.zero_le _) _ _
  | typedef => exact covered_leaf (Nat.zero_le _) _ _
  | sizeof => exact covered_leaf (Nat.zero_le _) _ _
  | specialReference => exact covered_leaf (Nat.zero_le _) _ _

/-- Reading takes tokens that are there, and at least one for each node. -/
theorem covered_read (d : Dialect) (previous : Option Token) (t : Token) (rest : List Token) :
    Covered rest (read d previous t rest).1 (read d previous t rest).2 := by
  unfold read
  split
  · split
    · exact covered_keyword ..
    · exact covered_plain
  · exact covered_leaf (Nat.zero_le _) _ _
  · exact covered_plain

end Construct

/-! ## The nodes of a draft -/

theorem SyntaxTree.size_attach_le (t : SyntaxTree) (p : Nat) (k : NodeKind) (l : Option String) :
    (t.attach p k l).size ≤ t.size + 1 := by
  by_cases hp : p < t.size
  · exact Nat.le_of_eq (size_attach hp)
  · rw [attach, dif_neg hp]
    exact Nat.le_succ _

theorem Builder.size_graft_le (b : Builder) (p : Nat) (F : Forest) :
    (b.graft p F).tree.size ≤ b.tree.size + F.size := by
  induction F generalizing b p with
  | nil => exact Nat.le_refl _
  | cons k l ch sib ihc ihs =>
    have hattach : (b.attach p k l).tree.size ≤ b.tree.size + 1 := b.tree.size_attach_le p k l
    have hbelow := ihc (b.attach p k l) b.tree.size
    have hbeside := ihs ((b.attach p k l).graft b.tree.size ch) p
    rw [graft, Forest.size]
    omega

/-- A construct adds at most the nodes that it puts into a scope, or one for a scope or a brace. -/
theorem Draft.size_add_le {x y : Draft} {c : Construct} {n : Nat}
    (hc : ∀ enclosing F, c.nodes? enclosing = some F → F.size ≤ n + 1) (h : x.add c = .ok y) :
    y.builder.tree.size ≤ x.builder.tree.size + (n + 1) := by
  rcases add_cases h with ⟨F, hF, rfl⟩ | ⟨kind, label, -, rfl⟩ | ⟨-, hy, -⟩ |
    ⟨label, condition, id, -, -, hy, -⟩
  · have hgraft := x.builder.size_graft_le x.builder.top F
    have hsize := hc _ F hF
    show (x.builder.graft x.builder.top F).tree.size ≤ _
    omega
  · have henter : (x.enter kind label).builder.tree.size ≤ x.builder.tree.size + 1 :=
      x.builder.tree.size_attach_le _ _ _
    omega
  · have hleaf : (x.builder.leaf .expression (some "\x7d")).tree.size ≤ x.builder.tree.size + 1 :=
      x.builder.tree.size_attach_le _ _ _
    rw [hy, Builder.leave_eq]
    show (x.builder.leaf .expression (some "\x7d")).tree.size ≤ _
    omega
  · have hsize : y.builder.tree.size = x.builder.tree.size :=
      SyntaxTree.size_alike (congrArg Builder.tree hy)
    omega

namespace Cursor

variable {d : Dialect} {tokens : List Token} {s s' : Cursor}

/-- A step adds no more nodes than it reads tokens. -/
theorem size_le_of_step (h : Step d s s') :
    s'.draft.builder.tree.size + s.done.length ≤ s.draft.builder.tree.size + s'.done.length := by
  cases h with
  | @read done rest t x y c n hread hadd =>
    have hcovered := Construct.covered_read d done.getLast? t rest
    rw [hread] at hcovered
    have hsize := Draft.size_add_le hcovered.nodes hadd
    have hrange : n ≤ rest.length := hcovered.range
    show y.builder.tree.size + done.length ≤
      x.builder.tree.size + (done ++ t :: rest.take n).length
    rw [List.length_append, List.length_cons, List.length_take, Nat.min_eq_left hrange]
    dsimp only at hsize
    omega

/-- At every place of a run there is at most one node more than tokens that were read. -/
theorem Reached.size_le (h : Reached d tokens s) :
    s.draft.builder.tree.size ≤ s.done.length + 1 := by
  induction h with
  | refl => exact Nat.le_refl _
  | tail _ hstep ih =>
    have hadded := size_le_of_step hstep
    omega

end Cursor

namespace SyntaxTree

variable {d : Dialect} {tokens : List Token} {t : SyntaxTree}

/-- There is a report on every tree that is read, and it counts the nodes and the tokens. -/
theorem exists_reportOn (h : ofTokens d tokens = .ok t) :
    ∃ report, d.reportOn t tokens.length = .ok report ∧ report.nodeCount = t.size ∧
      report.tokenCount = tokens.length := by
  have harranged := arranged_ofTokens h
  rw [Dialect.reportOn, time_eq harranged, space_eq harranged]
  exact ⟨_, rfl, rfl, rfl⟩

/-- A tree that is read has at most one node more than there are tokens, and so it is reported. -/
theorem size_ofTokens_le (h : ofTokens d tokens = .ok t) :
    t.size ≤ tokens.length + 1 ∧
      ∃ report, d.reportOn t tokens.length = .ok report ∧ report.nodeCount = t.size ∧
        report.nodeCount ≤ report.tokenCount + 1 := by
  have hsize : t.size ≤ tokens.length + 1 := by
    obtain ⟨x, hreached, rfl⟩ := exists_reached_of_ok h
    exact hreached.size_le
  obtain ⟨report, hreport, hnodes, htokens⟩ := exists_reportOn h
  refine ⟨hsize, report, hreport, hnodes, ?_⟩
  rw [hnodes, htokens]
  exact hsize

/-- The bound is reached where the tokens end in a bracket: the type, the array and its number are
three nodes of three tokens. -/
theorem size_ofTokens_le_bracket :
    ∃ t, ofTokens { grammar := .cLike } (Grammar.cLike.tokenize "int [ 2") = .ok t ∧
      t.size = 4 ∧ (Grammar.cLike.tokenize "int [ 2").length = 3 ∧
      t.size ≤ (Grammar.cLike.tokenize "int [ 2").length + 1 := by
  have heval : (ofTokens { grammar := .cLike } (Grammar.cLike.tokenize "int [ 2")).bind
      (fun t => .ok t.size) = .ok 4 := by cbv
  have hlength : (Grammar.cLike.tokenize "int [ 2").length = 3 := by cbv
  obtain ⟨t, ht, hsize⟩ := exists_of_bind_ofTokens heval
  exact ⟨t, ht, Except.ok.inj hsize, hlength, (size_ofTokens_le ht).1⟩

end SyntaxTree

end GrowthOrder
