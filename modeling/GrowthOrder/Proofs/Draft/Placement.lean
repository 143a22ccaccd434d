import GrowthOrder.Proofs.Draft.Moves
import GrowthOrder.Proofs.Tree.Outline

/-!
# Laws of the nodes of a tree that is read

A law says something of a node from its kind and label, the kinds above it and what is below it. It
holds of all nodes of every tree that is read if it holds of the nodes that constructs put into
scopes and of the scopes that they open. The law proved here is on the place of scopes and calls
and on the kinds that have nothing below them.
-/
namespace GrowthOrder

/-- Kinds of nested scopes, at least the root. -/
def NodeKind.Scopes (kinds : List NodeKind) : Prop :=
  kinds ≠ [] ∧ ∀ k ∈ kinds, k.isScope

theorem Construct.isScope_of_scope? {g : Grammar} {c : Construct} {k : NodeKind} {l : String}
    (hc : c.Regular g) (h : c.scope? = some (k, l)) : k.isScope := by
  unfold scope? at h
  split at h
  · cases h
    change k.isOpener at hc
    unfold NodeKind.isOpener at hc
    split at hc
    · rfl
    · rfl
    · rfl
    · cases hc
  all_goals
    cases h
    try rfl

namespace Spine

variable {P : List NodeKind → NodeKind → Option String → Forest → Prop} {s : Spine} {F : Forest}

/-- A law holds of all nodes of the spine, whatever is put into the open scopes. -/
def Each (P : List NodeKind → NodeKind → Option String → Forest → Prop) : Spine → Prop
  | root before => before.Each P [.program]
  | scope outer kind label before =>
    outer.Each P ∧ (∀ below, P outer.kinds kind label below) ∧
      before.Each P (kind :: outer.kinds)

theorem kinds_add (s : Spine) (F : Forest) : (s.add F).kinds = s.kinds := by
  cases s <;> rfl

theorem each_add (hs : s.Each P) (hF : F.Each P s.kinds) : (s.add F).Each P := by
  cases s with
  | root before => exact Forest.each_append.2 ⟨hs, hF⟩
  | scope outer kind label before =>
    obtain ⟨ho, hk, hb⟩ := hs
    exact ⟨ho, hk, Forest.each_append.2 ⟨hb, hF⟩⟩

theorem each_close (hs : s.Each P) : s.close.Each P := by
  cases s with
  | root before => exact hs
  | scope outer kind label before =>
    obtain ⟨ho, hk, hb⟩ := hs
    exact each_add ho ⟨hk before, hb, trivial⟩

theorem each_around (hs : s.Each P) (hF : F.Each P s.kinds) : (s.around F).Each P [.program] := by
  induction s generalizing F with
  | root before => exact Forest.each_append.2 ⟨hs, hF⟩
  | scope outer kind label before ih =>
    obtain ⟨ho, hk, hb⟩ := hs
    exact ih ho ⟨hk _, Forest.each_append.2 ⟨hb, hF⟩, trivial⟩

theorem scopes_close (hs : NodeKind.Scopes s.kinds) : NodeKind.Scopes s.close.kinds := by
  cases s with
  | root before => exact hs
  | scope outer kind label before =>
    rw [close, kinds_add]
    refine ⟨?_, fun k hk => hs.2 k (List.mem_cons_of_mem _ hk)⟩
    cases outer with
    | root => exact List.cons_ne_nil _ _
    | scope => exact List.cons_ne_nil _ _

end Spine

/-- A law that the constructs of the reader establish in a grammar, and that does not look at the
conditions of do-loops. -/
structure NodeLaw (g : Grammar) (P : List NodeKind → NodeKind → Option String → Forest → Prop) :
    Prop where
  bare : ∀ above kind label below,
    P (above.map NodeKind.bare) kind.bare label below ↔ P above kind label below
  nodes : ∀ above (c : Construct) F, NodeKind.Scopes above → c.Regular g →
    c.nodes? (NodeKind.enclosingName above) = some F → F.Each P above
  scope : ∀ above (c : Construct) kind label, NodeKind.Scopes above → c.Regular g →
    c.scope? = some (kind, label) → ∀ below, P above kind (some label) below

namespace NodeLaw

variable {P : List NodeKind → NodeKind → Option String → Forest → Prop} {s s' : Spine}
  {g : Grammar} {c : Construct}

/-- Every move keeps a law. -/
theorem keeps (hP : NodeLaw g P) (hc : c.Regular g) (hs : NodeKind.Scopes s.kinds ∧ s.Each P)
    (hm : s.Move c s') : NodeKind.Scopes s'.kinds ∧ s'.Each P := by
  obtain ⟨hk, hs⟩ := hs
  cases hm with
  | add hF => exact ⟨by rwa [Spine.kinds_add], Spine.each_add hs (hP.nodes _ _ _ hk hc hF)⟩
  | @enter kind label hl =>
    refine ⟨⟨List.cons_ne_nil _ _, ?_⟩, hs, hP.scope _ _ _ _ hk hc hl, trivial⟩
    intro k hmem
    rcases List.mem_cons.1 hmem with rfl | hmem
    · exact Construct.isScope_of_scope? hc hl
    · exact hk.2 k hmem
  | close =>
    -- the brace is a node of its own, like any other token
    have hbrace := hP.nodes s.kinds (.leaf .expression "\x7d") _ hk rfl rfl
    exact ⟨Spine.scopes_close (by rwa [Spine.kinds_add]),
      Spine.each_close (Spine.each_add hs hbrace)⟩
  | trailer => exact ⟨hk, hs⟩

/-- A law holds of every node but the root. -/
theorem holds {d : Dialect} (hP : NodeLaw d.grammar P) {tokens : List Token} {t : SyntaxTree}
    {u : Nat} (h : SyntaxTree.ofTokens d tokens = .ok t) (hu : 0 < u) (hs : u < t.size) :
    ∃ below, P ((t.lineage u).map t.kind) (t.kind u) (t.label u) below ∧ t.row u = below.row := by
  have hroot : NodeKind.Scopes (Spine.root .nil).kinds ∧ (Spine.root .nil).Each P := by
    refine ⟨⟨List.cons_ne_nil _ _, fun k hk => ?_⟩, trivial⟩
    obtain rfl := List.mem_singleton.1 hk
    rfl
  obtain ⟨s, ⟨-, he⟩, ht⟩ := SyntaxTree.exists_spine h hroot fun s c s' => hP.keeps
  have hF : s.forest.Each P [.program] := Spine.each_around he trivial
  obtain ⟨below, hbelow, hch, hshows⟩ :=
    (Spine.grown_finish s).exists_of_each hF hu (SyntaxTree.size_alike ht ▸ hs)
  have hrow : t.row u = below.row := by
    rw [SyntaxTree.row_alike ht, SyntaxTree.row, hch, SyntaxTree.map_roots_shows hshows]
  refine ⟨below, (hP.bare _ _ _ _).1 ?_, hrow⟩
  have hkind := funext (SyntaxTree.kind_alike ht)
  rw [List.map_map, SyntaxTree.lineage_alike ht, SyntaxTree.label_alike ht]
  change P (List.map (fun i => (t.kind i).bare) _) _ _ _
  rw [hkind, SyntaxTree.kind_alike ht]
  have hbare := (hP.bare _ _ _ _).2 hbelow
  rwa [List.map_map] at hbare

end NodeLaw

namespace NodeKind

def isCall : NodeKind → Bool
  | functionCall _ | recursiveCall _ => true
  | _ => false

/-- The kinds that have nothing below them in a tree that is read, apart from those whose children
are walked anyway. -/
def isInert : NodeKind → Bool
  | returnStatement | newInstance | specialReference | typedef | sizeof | literal | unknown => true
  | _ => false

theorem exists_of_isFunction {k : NodeKind} (h : k.isFunction) :
    ∃ name, k = .functionDeclaration name := by
  cases k with
  | functionDeclaration name => exact ⟨name, rfl⟩
  | _ => cases h

theorem isCall_callKind (enclosing : Option String) (name : String) :
    (Arguments.callKind enclosing name).isCall := by
  unfold Arguments.callKind
  split <;> rfl

/-- A call does not change which function is around what is below it. -/
theorem enclosingName_cons_of_isCall {k : NodeKind} (h : k.isCall) (above : List NodeKind) :
    enclosingName (k :: above) = enclosingName above := by
  have hnot : ¬ k.isFunction := by
    cases k with
    | functionDeclaration => cases h
    | _ => exact Bool.false_ne_true
  rw [enclosingName, List.find?_cons_of_neg hnot, enclosingName]

theorem bare_eq_iff {k k' : NodeKind} (hk : k.isLoop = false) : k'.bare = k ↔ k' = k := by
  rcases bare_cases k' with h | ⟨header, rfl⟩
  · rw [h]
  · constructor
    · rintro rfl
      cases hk
    · rintro rfl
      cases hk

/-- A scope stands in a scope; a call stands in a scope or a call and is recursive if it names the
function around it; inert kinds have nothing below them. -/
structure Placed (above : List NodeKind) (kind : NodeKind) (label : Option String)
    (below : Forest) : Prop where
  scope : kind.isScope → above.head?.any isScope
  call : kind.isCall → above.head?.any (fun p => p.isScope || p.isCall) ∧
    ∃ name, kind = Arguments.callKind (enclosingName above) name
  inert : kind.isInert → below = .nil

variable {above : List NodeKind} {k : NodeKind} {l : Option String} {below : Forest}

theorem placed_plain (hs : k.isScope = false) (hc : k.isCall = false)
    (hi : k.isInert → below = .nil) : Placed above k l below where
  scope h := by rw [hs] at h; cases h
  call h := by rw [hc] at h; cases h
  inert := hi

theorem of_isScope (hs : k.isScope) : k.isCall = false ∧ k.isInert = false := by
  cases k with
  | program | block | loop | conditional | functionDeclaration => exact ⟨rfl, rfl⟩
  | _ => cases hs

theorem placed_scope (ha : Scopes above) (hs : k.isScope) : Placed above k l below where
  scope _ := by
    obtain ⟨hne, hall⟩ := ha
    cases above with
    | nil => exact absurd rfl hne
    | cons p rest => exact hall p List.mem_cons_self
  call h := by rw [(of_isScope hs).1] at h; cases h
  inert h := by rw [(of_isScope hs).2] at h; cases h

theorem placed_callKind (ha : above.head?.any (fun p => p.isScope || p.isCall)) (name : String) :
    Placed above (Arguments.callKind (enclosingName above) name) l below := by
  refine ⟨fun h => ?_, fun _ => ⟨ha, name, rfl⟩, fun h => ?_⟩
  · unfold Arguments.callKind at h
    split at h <;> cases h
  · unfold Arguments.callKind at h
    split at h <;> cases h

end NodeKind

namespace Forest

open NodeKind (Placed placed_plain)

variable {above : List NodeKind}

theorem each_expressions (texts : List String) : (expressions texts).Each Placed above := by
  induction texts with
  | nil => trivial
  | cons text texts ih => exact ⟨placed_plain rfl rfl fun _ => rfl, trivial, ih⟩

theorem each_clauses {kinds : List (NodeKind × String)} (texts : List (List String))
    (hk : ∀ k ∈ kinds, k.1.isScope = false ∧ k.1.isCall = false ∧ k.1.isInert = false) :
    (clauses kinds texts).Each Placed above := by
  induction kinds generalizing texts with
  | nil => trivial
  | cons k kinds ih =>
    cases texts with
    | nil => trivial
    | cons text texts =>
      obtain ⟨hs, hc, hi⟩ := hk k List.mem_cons_self
      refine ⟨placed_plain hs hc fun h => ?_, each_expressions text,
        ih texts fun k hk' => hk k (List.mem_cons_of_mem _ hk')⟩
      rw [hi] at h
      cases h

theorem each_array (label : String) (dimensions : List Dimension) :
    (array label dimensions).Each Placed above := by
  have hl : ∀ (above : List NodeKind) (sizes : List UInt64),
      (array.literals sizes).Each Placed above := by
    intro above sizes
    induction sizes with
    | nil => trivial
    | cons size sizes ih => exact ⟨placed_plain rfl rfl fun _ => rfl, trivial, ih⟩
  unfold array
  split
  · trivial
  · exact ⟨placed_plain rfl rfl nofun, hl _ _, trivial⟩

/-- Every call in the arguments of a call stands in a call or where the outer call stands. -/
theorem each_arguments (arguments : Arguments)
    (ha : above.head?.any fun p => p.isScope || p.isCall) :
    (arguments.forest (NodeKind.enclosingName above)).Each Placed above := by
  induction arguments generalizing above with
  | done closed => trivial
  | word text rest ih => exact ⟨placed_plain rfl rfl fun _ => rfl, trivial, ih ha⟩
  | call name inner rest ihi ihr =>
    have hcall := NodeKind.isCall_callKind (NodeKind.enclosingName above) name
    have hinner := @ihi (Arguments.callKind (NodeKind.enclosingName above) name :: above)
      (by simp [hcall])
    rw [NodeKind.enclosingName_cons_of_isCall hcall] at hinner
    exact ⟨NodeKind.placed_callKind ha name, hinner, ihr ha⟩

end Forest

namespace NodeKind

theorem Scopes.head_any {above : List NodeKind} (h : Scopes above) :
    above.head?.any fun p => p.isScope || p.isCall := by
  obtain ⟨hne, hall⟩ := h
  cases above with
  | nil => exact absurd rfl hne
  | cons p rest =>
    have hp := hall p List.mem_cons_self
    simp [hp]

theorem of_isAtom {k : NodeKind} (h : k.isAtom) : k.isScope = false ∧ k.isCall = false := by
  cases k with
  | program | block | loop | conditional | functionDeclaration => cases h
  | functionCall | recursiveCall => cases h
  | _ => exact ⟨rfl, rfl⟩

/-- The forests of constructs are placed wherever scopes are around them. -/
theorem each_nodes? {g : Grammar} {above : List NodeKind} {c : Construct} {F : Forest}
    (ha : Scopes above) (hc : c.Regular g) (h : c.nodes? (enclosingName above) = some F) :
    F.Each Placed above := by
  cases c with
  | leaf kind label =>
    cases h
    obtain ⟨hs, hcall⟩ := of_isAtom hc
    exact ⟨placed_plain hs hcall fun _ => rfl, trivial, trivial⟩
  | forLoop label header =>
    cases header with
    | clauses texts =>
      cases h
      exact ⟨placed_scope ha rfl, Forest.each_clauses texts (by decide), trivial⟩
    | absent =>
      cases h
      exact ⟨placed_scope ha rfl, trivial, trivial⟩
    | positional => cases h
    | cut => cases h
  | typedArray typeName name dimensions =>
    cases h
    exact ⟨placed_plain rfl rfl nofun, Forest.each_array .., trivial⟩
  | bareArray name dimensions =>
    cases h
    exact Forest.each_array ..
  | call name arguments =>
    cases h
    -- the call and what is in its parentheses are one call among the arguments of nothing
    exact Forest.each_arguments (.call name arguments (.done true)) ha.head_any
  | scope => cases h
  | close => cases h
  | whileLoop => cases h

theorem isCall_bare (k : NodeKind) : k.bare.isCall = k.isCall :=
  apply_bare isCall (fun _ => rfl) k

theorem isInert_bare (k : NodeKind) : k.bare.isInert = k.isInert :=
  apply_bare isInert (fun _ => rfl) k

theorem any_head_bare {f : NodeKind → Bool} (hf : ∀ k, f k.bare = f k) (above : List NodeKind) :
    (above.map bare).head?.any f = above.head?.any f := by
  cases above with
  | nil => rfl
  | cons p rest => exact hf p

theorem placed_bare (above : List NodeKind) (kind : NodeKind) (label : Option String)
    (below : Forest) : Placed (above.map bare) kind.bare label below ↔
      Placed above kind label below := by
  have hcall : ∀ name, kind.bare = Arguments.callKind (enclosingName above) name ↔
      kind = Arguments.callKind (enclosingName above) name := fun name =>
    bare_eq_iff (by unfold Arguments.callKind; split <;> rfl)
  have hs := any_head_bare isScope_bare above
  have hsc := any_head_bare (f := fun p => p.isScope || p.isCall)
    (fun k => by rw [isScope_bare, isCall_bare]) above
  constructor
  · rintro ⟨h1, h2, h3⟩
    rw [isScope_bare, hs] at h1
    rw [isCall_bare, hsc, enclosingName_bare] at h2
    rw [isInert_bare] at h3
    simp only [hcall] at h2
    exact ⟨h1, h2, h3⟩
  · rintro ⟨h1, h2, h3⟩
    refine ⟨?_, ?_, ?_⟩
    · rwa [isScope_bare, hs]
    · rw [isCall_bare, hsc, enclosingName_bare]
      simpa only [hcall] using h2
    · rwa [isInert_bare]

theorem nodeLaw_placed (g : Grammar) : NodeLaw g Placed where
  bare := placed_bare
  nodes _ _ _ := each_nodes?
  scope _ _ _ _ ha hc h _ := placed_scope ha (Construct.isScope_of_scope? hc h)

end NodeKind

namespace SyntaxTree

/-- How the nodes of a tree that is read hang together. -/
structure Arranged (t : SyntaxTree) : Prop where
  linked : t.Linked
  size_pos : 0 < t.size
  kind_root : t.kind 0 = .program
  preorder_root : t.preorder 0 = List.range t.size
  scope : ∀ u p, (t.kind u).isScope → t.parent u = some p → (t.kind p).isScope
  call : ∀ u, (t.kind u).isCall → ∃ p, t.parent u = some p ∧
    ((t.kind p).isScope ∨ (t.kind p).isCall) ∧
    ∃ name, t.kind u = Arguments.callKind (NodeKind.enclosingName ((t.lineage u).map t.kind)) name
  inert : ∀ u, (t.kind u).isInert → t.children u = []

variable {d : Dialect} {tokens : List Token} {t : SyntaxTree} {name : String} {u v : Nat}

theorem kind_of_size_le (h : t.size ≤ u) : t.kind u = .unknown := by
  have hn : t.nodes[u]? = none := Array.getElem?_eq_none h
  rw [kind, hn]
  rfl

theorem children_of_size_le (h : t.size ≤ u) : t.children u = [] := by
  have hn : t.nodes[u]? = none := Array.getElem?_eq_none h
  rw [children, hn]
  rfl

/-- The name of the function around a node. -/
def enclosingName? (t : SyntaxTree) (id : Nat) : Option String :=
  (t.enclosingFunction? id).bind fun f => (t.kind f).functionName?

theorem exists_name_of_enclosingFunction? {f : Nat} (h : t.enclosingFunction? u = some f) :
    ∃ name, t.kind f = .functionDeclaration name :=
  NodeKind.exists_of_isFunction (enclosingFunction?_eq_some_iff.1 h).isFunction

theorem exists_of_enclosingName? (h : t.enclosingName? u = some name) :
    ∃ f, t.enclosingFunction? u = some f ∧ t.kind f = .functionDeclaration name := by
  obtain ⟨f, hf, hname⟩ := Option.bind_eq_some_iff.1 h
  obtain ⟨callee, hk⟩ := exists_name_of_enclosingFunction? hf
  rw [hk] at hname
  obtain rfl := Option.some.inj hname
  exact ⟨f, hf, hk⟩

/-- Every tree that is read is arranged. -/
theorem arranged_ofTokens (h : ofTokens d tokens = .ok t) : t.Arranged := by
  obtain ⟨s, -, ht⟩ := exists_spine (P := fun _ => True) h trivial fun _ _ _ _ _ _ => trivial
  have hgrown := Spine.grown_finish s
  have hroot : t.kind 0 = .program := by
    have hk := kind_alike ht 0
    rw [hgrown.kind_root] at hk
    exact (NodeKind.bare_eq_iff rfl).1 hk
  constructor
  case linked =>
    rw [← linked_bare, ht, linked_bare]
    exact Builder.linked_finish (Spine.sound_builder s)
  case size_pos =>
    rw [size_alike ht, hgrown.size_eq]
    exact Nat.succ_pos _
  case kind_root => exact hroot
  case preorder_root => rw [preorder_alike ht, hgrown.preorder_root, size_alike ht]
  case scope =>
    intro u p hk hp
    have hpos := parent_eq_some_lt hp
    obtain ⟨below, hplaced, -⟩ :=
      (NodeKind.nodeLaw_placed d.grammar).holds h (by omega) (parent_lt_size hp)
    have hhead := hplaced.scope hk
    rwa [lineage_of_parent hp] at hhead
  case call =>
    intro u hk
    have hpos : 0 < u := by
      rcases Nat.eq_zero_or_pos u with rfl | hu
      · rw [hroot] at hk
        cases hk
      · exact hu
    have hlt : u < t.size := by
      rcases Nat.lt_or_ge u t.size with hlt | hge
      · exact hlt
      · rw [kind_of_size_le hge] at hk
        cases hk
    obtain ⟨below, hplaced, -⟩ := (NodeKind.nodeLaw_placed d.grammar).holds h hpos hlt
    obtain ⟨hhead, hname⟩ := hplaced.call hk
    cases hp : t.parent u with
    | none =>
      rw [lineage_of_none hp] at hhead
      cases hhead
    | some p =>
      rw [lineage_of_parent hp] at hhead
      exact ⟨p, rfl, Bool.or_eq_true_iff.1 hhead, hname⟩
  case inert =>
    intro u hk
    rcases Nat.eq_zero_or_pos u with rfl | hpos
    · rw [hroot] at hk
      cases hk
    · rcases Nat.lt_or_ge u t.size with hlt | hge
      · obtain ⟨below, hplaced, hrow⟩ := (NodeKind.nodeLaw_placed d.grammar).holds h hpos hlt
        rw [hplaced.inert hk] at hrow
        exact List.map_eq_nil_iff.1 hrow
      · exact children_of_size_le hge

namespace Arranged

theorem root?_eq (ht : t.Arranged) : t.root? = some 0 :=
  if_neg (Nat.ne_of_gt ht.size_pos)

/-- Everything above a scope is a scope. -/
theorem isScope_of_mem_lineage (ht : t.Arranged) (hu : (t.kind u).isScope)
    (hv : v ∈ t.lineage u) : (t.kind v).isScope := by
  induction u using Nat.strongRecOn with
  | ind u ih =>
    cases hp : t.parent u with
    | none =>
      rw [lineage_of_none hp] at hv
      cases hv
    | some p =>
      rw [lineage_of_parent hp] at hv
      have hs := ht.scope u p hu hp
      rcases List.mem_cons.1 hv with rfl | hv
      · exact hs
      · exact ih p (parent_eq_some_lt hp) hs hv

/-- A call is judged by the function that is around it in the finished tree. -/
theorem exists_callKind (ht : t.Arranged) (hu : (t.kind u).isCall) :
    ∃ callee, t.kind u = Arguments.callKind (t.enclosingName? u) callee := by
  obtain ⟨p, -, -, callee, hkind⟩ := ht.call u hu
  have hname : t.enclosingName? u = NodeKind.enclosingName ((t.lineage u).map t.kind) := by
    rw [enclosingName?, enclosingFunction?_name, List.map_cons,
      NodeKind.enclosingName_cons_of_isCall hu]
  exact ⟨callee, hname ▸ hkind⟩

theorem enclosingName?_of_recursiveCall (ht : t.Arranged) (hu : t.kind u = .recursiveCall name) :
    t.enclosingName? u = some name := by
  obtain ⟨callee, hkind⟩ := ht.exists_callKind (by rw [hu]; rfl)
  rw [hu] at hkind
  unfold Arguments.callKind at hkind
  split at hkind
  · next henc =>
    cases hkind
    exact henc
  · cases hkind

theorem enclosingName?_of_functionCall (ht : t.Arranged) (hu : t.kind u = .functionCall name) :
    t.enclosingName? u ≠ some name := by
  obtain ⟨callee, hkind⟩ := ht.exists_callKind (by rw [hu]; rfl)
  rw [hu] at hkind
  unfold Arguments.callKind at hkind
  split at hkind
  · cases hkind
  · next henc =>
    cases hkind
    exact henc

/-- A recursive call stands in a function of its name. -/
theorem exists_function_of_recursiveCall (ht : t.Arranged) (hu : t.kind u = .recursiveCall name) :
    ∃ v ∈ t.lineage u, t.kind v = .functionDeclaration name := by
  obtain ⟨v, hv, hname⟩ := exists_of_enclosingName? (ht.enclosingName?_of_recursiveCall hu)
  have hmem := (enclosingFunction?_eq_some_iff.1 hv).mem
  rcases List.mem_cons.1 hmem with rfl | hmem
  · rw [hu] at hname
    cases hname
  · exact ⟨v, hmem, hname⟩

end Arranged

end SyntaxTree

end GrowthOrder
