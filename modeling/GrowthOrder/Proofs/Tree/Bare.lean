import GrowthOrder.Proofs.Tree.Graft

/-!
# Trees up to the conditions of do-loops

The condition of a do-loop is only known after its body, and is written into a node that is already
in place. A bare tree has none of these conditions. Adding nodes and setting such a condition
commute with taking the bare tree, and the places of all nodes are those of the bare tree.
-/
namespace GrowthOrder

/-- The kind without the condition of a do-loop. -/
def NodeKind.bare : NodeKind → NodeKind
  | loop .doWhile _ => loop .doWhile {}
  | kind => kind

namespace NodeKind

theorem bare_cases (k : NodeKind) : k.bare = k ∨ ∃ header, k = .loop .doWhile header := by
  cases k with
  | loop form header =>
    cases form with
    | doWhile => exact .inr ⟨header, rfl⟩
    | forLoop => exact .inl rfl
    | whileLoop => exact .inl rfl
  | _ => exact .inl rfl

/-- What does not look at the headers of do-loops is the same for the bare kind. -/
theorem apply_bare {α : Type} (f : NodeKind → α)
    (hf : ∀ header, f (.loop .doWhile {}) = f (.loop .doWhile header)) (k : NodeKind) :
    f k.bare = f k := by
  rcases bare_cases k with h | ⟨header, rfl⟩
  · rw [h]
  · exact hf header

@[simp] theorem isFunction_bare (k : NodeKind) : k.bare.isFunction = k.isFunction :=
  apply_bare isFunction (fun _ => rfl) k

@[simp] theorem functionName?_bare (k : NodeKind) : k.bare.functionName? = k.functionName? :=
  apply_bare functionName? (fun _ => rfl) k

@[simp] theorem isScope_bare (k : NodeKind) : k.bare.isScope = k.isScope :=
  apply_bare isScope (fun _ => rfl) k

theorem enclosingName_bare (kinds : List NodeKind) :
    enclosingName (kinds.map bare) = enclosingName kinds := by
  have hf : isFunction ∘ bare = isFunction := funext isFunction_bare
  have hn : functionName? ∘ bare = functionName? := funext functionName?_bare
  rw [enclosingName, List.find?_map, Option.bind_map, hf, hn, enclosingName]

end NodeKind

def Forest.bare : Forest → Forest
  | nil => nil
  | cons kind label children siblings => cons kind.bare label children.bare siblings.bare

/-- The outermost nodes from left to right, by bare kind and label. -/
def Forest.row : Forest → List (NodeKind × Option String)
  | nil => []
  | cons kind label _ siblings => (kind.bare, label) :: siblings.row

namespace SyntaxTree

/-- The children of a node from left to right, by bare kind and label. -/
def row (t : SyntaxTree) (id : Nat) : List (NodeKind × Option String) :=
  (t.children id).map fun c => ((t.kind c).bare, t.label c)

/-- The tree without the conditions of its do-loops. -/
def bare (t : SyntaxTree) : SyntaxTree where
  nodes := t.nodes.map fun n => { n with kind := n.kind.bare }
  unclosedScopes := t.unclosedScopes
  child_range := by
    intro i n hn c hc
    rw [Array.getElem?_map] at hn
    rw [Array.size_map]
    obtain ⟨m, hm, rfl⟩ := Option.map_eq_some_iff.1 hn
    exact t.child_range i m hm c hc
  parent_lt := by
    intro i n hn p hp
    rw [Array.getElem?_map] at hn
    obtain ⟨m, hm, rfl⟩ := Option.map_eq_some_iff.1 hn
    exact t.parent_lt i m hm p hp

variable {t : SyntaxTree} {p : Nat} {k : NodeKind} {l : Option String}

theorem size_bare (t : SyntaxTree) : t.bare.size = t.size :=
  Array.size_map

theorem getElem?_bare (t : SyntaxTree) (i : Nat) :
    t.bare.nodes[i]? = t.nodes[i]?.map fun n => { n with kind := n.kind.bare } :=
  Array.getElem?_map

theorem kind_bare (t : SyntaxTree) (i : Nat) : t.bare.kind i = (t.kind i).bare := by
  rw [kind, kind, getElem?_bare]
  cases t.nodes[i]? <;> rfl

theorem label_bare (t : SyntaxTree) (i : Nat) : t.bare.label i = t.label i := by
  rw [label, label, getElem?_bare]
  cases t.nodes[i]? <;> rfl

theorem parent_bare (t : SyntaxTree) (i : Nat) : t.bare.parent i = t.parent i := by
  rw [parent, parent, getElem?_bare]
  cases t.nodes[i]? <;> rfl

theorem children_bare (t : SyntaxTree) (i : Nat) : t.bare.children i = t.children i := by
  rw [children, children, getElem?_bare]
  cases t.nodes[i]? <;> rfl

theorem lineage_bare (t : SyntaxTree) (u : Nat) : t.bare.lineage u = t.lineage u :=
  lineage_of_agree fun i _ => parent_bare t i

theorem preorder_bare (t : SyntaxTree) (id : Nat) : t.bare.preorder id = t.preorder id := by
  induction id using t.induction with
  | step id ih =>
    rw [preorder_eq, preorder_eq, children_bare]
    exact congrArg (id :: ·) (congrArg List.flatten (List.map_congr_left ih))

section Alike

variable {t' : SyntaxTree} (h : t.bare = t'.bare)
include h

theorem size_alike : t.size = t'.size := by
  rw [← size_bare, h, size_bare]

theorem kind_alike (i : Nat) : (t.kind i).bare = (t'.kind i).bare := by
  rw [← kind_bare, h, kind_bare]

theorem label_alike (i : Nat) : t.label i = t'.label i := by
  rw [← label_bare, h, label_bare]

theorem children_alike (i : Nat) : t.children i = t'.children i := by
  rw [← children_bare, h, children_bare]

theorem lineage_alike (u : Nat) : t.lineage u = t'.lineage u := by
  rw [← lineage_bare, h, lineage_bare]

theorem preorder_alike (id : Nat) : t.preorder id = t'.preorder id := by
  rw [← preorder_bare, h, preorder_bare]

theorem row_alike (id : Nat) : t.row id = t'.row id := by
  rw [row, row, children_alike h]
  refine List.map_congr_left fun c _ => ?_
  rw [kind_alike h, label_alike h]

end Alike

/-- The nodes of a forest that a tree shows have the kinds and labels of the forest. -/
theorem map_roots_shows {n : Nat} {F : Forest} (h : t.Shows p n F) :
    (F.roots n).map (fun c => ((t.kind c).bare, t.label c)) = F.row := by
  induction F generalizing p n with
  | nil => rfl
  | cons k l ch sib ihc ihs =>
    obtain ⟨hn, hc, hs⟩ := h
    have hk : t.kind n = k := kind_of_node hn
    have hl : t.label n = l := label_of_node hn
    rw [Forest.roots, List.map_cons, hk, hl, ihs hs, Forest.row]

theorem linked_bare : t.bare.Linked ↔ t.Linked := by
  constructor
  · rintro ⟨hmem, hinc, hpos⟩
    simp only [children_bare, parent_bare, size_bare] at hmem hinc hpos
    exact ⟨hmem, hinc, hpos⟩
  · rintro ⟨hmem, hinc, hpos⟩
    constructor
    · simpa only [children_bare, parent_bare] using hmem
    · simpa only [children_bare] using hinc
    · simpa only [parent_bare, size_bare] using hpos

theorem bare_attach (t : SyntaxTree) (p : Nat) (k : NodeKind) (l : Option String) :
    (t.attach p k l).bare = t.bare.attach p k.bare l := by
  by_cases hp : p < t.size
  · have hb : p < t.bare.size := by rwa [size_bare]
    refine eq_of_nodes (Array.ext_getElem? fun i => ?_) ?_
    · rw [getElem?_bare, getElem?_attach hp, getElem?_attach hb, size_bare, getElem?_bare]
      by_cases hi : i = t.size
      · rw [if_pos hi, if_pos hi]
        rfl
      · rw [if_neg hi, if_neg hi]
        by_cases hpi : p = i
        · rw [if_pos hpi, if_pos hpi, Option.map_map, Option.map_map]
          rfl
        · rw [if_neg hpi, if_neg hpi]
    · rw [unclosedScopes_attach]
      exact unclosedScopes_attach
  · have hb : ¬ p < t.bare.size := by rwa [size_bare]
    rw [attach, dif_neg hp, attach, dif_neg hb]

/-- The condition of a do-loop does not show in the bare tree. -/
theorem bare_amend {id : Nat} {header : LoopHeader} (hk : t.kind id = .loop .doWhile header)
    (text : String) :
    (t.amend id (NodeKind.withCondition text) fun label => label).bare = t.bare := by
  refine eq_of_nodes (Array.ext_getElem? fun i => ?_) rfl
  rw [getElem?_bare, getElem?_bare, getElem?_amend]
  by_cases hi : id = i
  · subst hi
    rw [if_pos rfl, Option.map_map]
    cases hn : t.nodes[id]? with
    | none => rfl
    | some n =>
      have hkind : n.kind = .loop .doWhile header := (kind_of_node hn).symm.trans hk
      simp [hkind, NodeKind.withCondition, NodeKind.bare]
  · rw [if_neg hi]

end SyntaxTree

namespace Builder

def bare (b : Builder) : Builder :=
  { b with tree := b.tree.bare }

theorem bare_attach (b : Builder) (p : Nat) (k : NodeKind) (l : Option String) :
    (b.attach p k l).bare = b.bare.attach p k.bare l := by
  rw [bare, attach, SyntaxTree.bare_attach]
  rfl

theorem bare_graft (b : Builder) (p : Nat) (F : Forest) :
    (b.graft p F).bare = b.bare.graft p F.bare := by
  induction F generalizing b p with
  | nil => rfl
  | cons k l ch sib ihc ihs =>
    have hs : b.bare.tree.size = b.tree.size := SyntaxTree.size_bare b.tree
    rw [graft, ihs, ihc, bare_attach, Forest.bare, graft, hs]

/-- New nodes under a parent come behind the children that it has. -/
theorem row_graft {b : Builder} {p u : Nat} (hp : p < b.tree.size) (F : Forest)
    (hu : u < b.tree.size) :
    (b.graft p F).tree.row u = b.tree.row u ++ if p = u then F.row else [] := by
  have hold : ∀ c ∈ b.tree.children u,
      (((b.graft p F).tree.kind c).bare, (b.graft p F).tree.label c) =
        ((b.tree.kind c).bare, b.tree.label c) := by
    intro c hc
    have hlt := (SyntaxTree.mem_children_range hc).2
    rw [kind_graft hp F hlt, label_graft hp F hlt]
  have hchildren : (b.graft p F).tree.children u =
      b.tree.children u ++ if p = u then F.roots b.tree.size else [] := by
    rw [SyntaxTree.children, SyntaxTree.children, getElem?_graft hp F hu]
    split
    · obtain ⟨n, hn⟩ : ∃ n, b.tree.nodes[u]? = some n := ⟨_, Array.getElem?_eq_getElem hu⟩
      rw [hn]
      rfl
    · rw [List.append_nil]
  rw [SyntaxTree.row, hchildren, List.map_append, List.map_congr_left hold]
  split
  · rw [SyntaxTree.map_roots_shows (SyntaxTree.shows_graft hp F)]
    rfl
  · rfl

theorem bare_enter (b : Builder) (k : NodeKind) (l : Option String) :
    (b.enter k l).bare = b.bare.enter k.bare l := by
  have hs : b.bare.tree.size = b.tree.size := SyntaxTree.size_bare b.tree
  rw [bare, enter, leaf, attach, enter, leaf, attach, SyntaxTree.bare_attach, hs]
  rfl

theorem enclosingName_bare (b : Builder) :
    NodeKind.enclosingName ((b.bare.top :: b.bare.tree.lineage b.bare.top).map b.bare.tree.kind) =
      NodeKind.enclosingName ((b.top :: b.tree.lineage b.top).map b.tree.kind) := by
  have hk : b.bare.tree.kind = NodeKind.bare ∘ b.tree.kind :=
    funext fun i => SyntaxTree.kind_bare b.tree i
  have hl : b.bare.tree.lineage b.bare.top = b.tree.lineage b.top :=
    SyntaxTree.lineage_bare b.tree b.top
  rw [hk, hl, ← List.map_map, NodeKind.enclosingName_bare]
  rfl

theorem bare_leave (b : Builder) : b.bare.leave = (b.leave.1, b.leave.2.bare) := by
  rw [leave_eq, leave_eq]
  rfl

end Builder

end GrowthOrder
