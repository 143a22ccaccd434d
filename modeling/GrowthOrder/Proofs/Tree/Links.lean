import GrowthOrder.Tree.Builder

/-!
# Parents and children of the trees that a builder makes

What a node holds after a node is added or changed, and the invariant that ties parents to
children: the children of a node are the nodes that name it as their parent, in increasing order,
and every node but the root has a parent. It holds after every sequence of requests to a builder,
whatever they do to kinds and labels.
-/
namespace GrowthOrder

namespace SyntaxTree

variable {t : SyntaxTree} {p : Nat} {k : NodeKind} {l : Option String}

/-- Trees are determined by their nodes and by the number of open scopes. -/
theorem eq_of_nodes {t t' : SyntaxTree} (hn : t.nodes = t'.nodes)
    (hu : t.unclosedScopes = t'.unclosedScopes) : t = t' := by
  cases t
  cases t'
  simp_all

theorem nodes_attach (hp : p < t.size) : (t.attach p k l).nodes =
    (t.nodes.modify p fun n => { n with children := n.children ++ [t.size] }).push
      { kind := k, label := l, parent := some p, children := [] } := by
  rw [attach, dif_pos hp]

theorem unclosedScopes_attach : (t.attach p k l).unclosedScopes = t.unclosedScopes := by
  rw [attach]
  split <;> rfl

theorem size_attach (hp : p < t.size) : (t.attach p k l).size = t.size + 1 := by
  rw [size, nodes_attach hp, Array.size_push, Array.size_modify]
  rfl

theorem getElem?_attach (hp : p < t.size) (i : Nat) : (t.attach p k l).nodes[i]? =
    if i = t.size then some { kind := k, label := l, parent := some p, children := [] }
    else if p = i then t.nodes[i]?.map fun n => { n with children := n.children ++ [t.size] }
    else t.nodes[i]? := by
  rw [nodes_attach hp, Array.getElem?_push, Array.size_modify, Array.getElem?_modify]
  rfl

theorem getElem?_size (t : SyntaxTree) : t.nodes[t.size]? = none := by
  simp [size]

section Node

variable {i : Nat} {n : Node} (h : t.nodes[i]? = some n)
include h

theorem kind_of_node : t.kind i = n.kind := by
  rw [kind, h]
  rfl

theorem label_of_node : t.label i = n.label := by
  rw [label, h]
  rfl

theorem parent_of_node : t.parent i = n.parent := by
  rw [parent, h]
  rfl

theorem children_of_node : t.children i = n.children := by
  rw [children, h]
  rfl

end Node

/-- What is read off a node without its children does not change at old nodes. -/
theorem bind_attach {α : Type} {q : Node → Option α} (hp : p < t.size)
    (hq : ∀ n cs, q { n with children := cs } = q n) (i : Nat) :
    (t.attach p k l).nodes[i]?.bind q =
      if i = t.size then q { kind := k, label := l, parent := some p, children := [] }
      else t.nodes[i]?.bind q := by
  rw [getElem?_attach hp]
  by_cases hi : i = t.size
  · rw [if_pos hi, if_pos hi]
    rfl
  · rw [if_neg hi, if_neg hi]
    by_cases hpi : p = i
    · rw [if_pos hpi]
      cases t.nodes[i]? with
      | none => rfl
      | some n => exact hq n _
    · rw [if_neg hpi]

theorem kind_attach (hp : p < t.size) (i : Nat) :
    (t.attach p k l).kind i = if i = t.size then k else t.kind i := by
  rw [kind, kind, Option.map_eq_bind, Option.map_eq_bind, bind_attach hp fun _ _ => rfl]
  split <;> rfl

theorem parent_attach (hp : p < t.size) (i : Nat) :
    (t.attach p k l).parent i = if i = t.size then some p else t.parent i :=
  bind_attach hp (fun _ _ => rfl) i

theorem children_attach (hp : p < t.size) (i : Nat) :
    (t.attach p k l).children i =
      if p = i then t.children i ++ [t.size] else t.children i := by
  rw [children, getElem?_attach hp]
  by_cases hi : i = t.size
  · have hpi : p ≠ i := by omega
    rw [if_pos hi, if_neg hpi, children, hi, getElem?_size]
    rfl
  · rw [if_neg hi, children]
    by_cases hpi : p = i
    · rw [if_pos hpi, if_pos hpi]
      obtain ⟨n, hn⟩ : ∃ n, t.nodes[i]? = some n :=
        ⟨_, Array.getElem?_eq_getElem (hpi ▸ hp)⟩
      rw [hn]
      rfl
    · rw [if_neg hpi, if_neg hpi]

theorem parent_lt_size {c : Nat} (h : t.parent c = some p) : c < t.size := by
  obtain ⟨n, hn, -⟩ := Option.bind_eq_some_iff.1 h
  exact (Array.getElem?_eq_some_iff.1 hn).1

variable {f : NodeKind → NodeKind} {g : Option String → Option String} {id : Nat}

theorem size_amend : (t.amend id f g).size = t.size :=
  Array.size_modify

theorem getElem?_amend (i : Nat) : (t.amend id f g).nodes[i]? =
    if id = i then t.nodes[i]?.map fun n => { n with kind := f n.kind, label := g n.label }
    else t.nodes[i]? :=
  Array.getElem?_modify

theorem parent_amend (i : Nat) : (t.amend id f g).parent i = t.parent i := by
  rw [parent, parent, getElem?_amend]
  split
  · cases t.nodes[i]? <;> rfl
  · rfl

theorem children_amend (i : Nat) : (t.amend id f g).children i = t.children i := by
  rw [children, children, getElem?_amend]
  split
  · cases t.nodes[i]? <;> rfl
  · rfl

/-- Parents and children agree, children stand in increasing order, and only the root has no
parent. -/
structure Linked (t : SyntaxTree) : Prop where
  mem_children_iff : ∀ i c, c ∈ t.children i ↔ t.parent c = some i
  increasing : ∀ i, (t.children i).Pairwise (· < ·)
  parent_of_pos : ∀ i, 0 < i → i < t.size → ∃ p, t.parent i = some p

theorem linked_attach (h : t.Linked) (hp : p < t.size) : (t.attach p k l).Linked := by
  constructor
  · intro i c
    rw [children_attach hp, parent_attach hp]
    by_cases hc : c = t.size
    · subst hc
      have hnot : t.size ∉ t.children i := fun hm => Nat.lt_irrefl _ (mem_children_range hm).2
      rw [if_pos rfl]
      by_cases hpi : p = i
      · simp [hpi]
      · simp [hpi, hnot]
    · rw [if_neg hc]
      by_cases hpi : p = i
      · simp [hpi, hc, h.mem_children_iff]
      · simp [hpi, h.mem_children_iff]
  · intro i
    rw [children_attach hp]
    split
    · refine List.pairwise_append.2 ⟨h.increasing i, List.pairwise_singleton _ _, ?_⟩
      intro c hc s hs
      obtain rfl := List.mem_singleton.1 hs
      exact (mem_children_range hc).2
    · exact h.increasing i
  · intro i hi his
    rw [size_attach hp] at his
    rw [parent_attach hp]
    by_cases hn : i = t.size
    · exact ⟨p, if_pos hn⟩
    · rw [if_neg hn]
      exact h.parent_of_pos i hi (by omega)

theorem linked_amend (h : t.Linked) : (t.amend id f g).Linked := by
  constructor
  · intro i c
    rw [children_amend, parent_amend]
    exact h.mem_children_iff i c
  · intro i
    rw [children_amend]
    exact h.increasing i
  · intro i hi his
    rw [size_amend] at his
    rw [parent_amend]
    exact h.parent_of_pos i hi his

end SyntaxTree

namespace Builder

/-- A request to a builder. Kinds and labels can be changed at any node, places cannot. -/
inductive Edit
  | enter (kind : NodeKind) (label : Option String)
  | leaf (kind : NodeKind) (label : Option String)
  | attach (parent : Nat) (kind : NodeKind) (label : Option String)
  | leave
  | relabel (id : Nat) (label : Option String)
  | recast (id : Nat) (change : NodeKind → NodeKind)

def apply (b : Builder) : Edit → Builder
  | .enter kind label => b.enter kind label
  | .leaf kind label => b.leaf kind label
  | .attach parent kind label => b.attach parent kind label
  | .leave => b.leave.2
  | .relabel id label => b.relabel id label
  | .recast id change => { b with tree := b.tree.amend id change fun label => label }

def run (b : Builder) (edits : List Edit) : Builder :=
  edits.foldl apply b

/-- The tree is linked, and the scopes that are open are nodes of it. -/
structure Sound (b : Builder) : Prop where
  linked : b.tree.Linked
  root : 0 < b.tree.size
  scopes_lt : ∀ id ∈ b.scopes, id < b.tree.size

theorem sound_start : start.Sound := by
  refine ⟨⟨?_, ?_, ?_⟩, by decide, by simp [start]⟩
  · intro i c
    have hc : ∀ j, start.tree.children j = [] := by
      intro j
      cases j <;> rfl
    have hp : ∀ j, start.tree.parent j = none := by
      intro j
      cases j <;> rfl
    simp [hc, hp]
  · intro i
    cases i <;> exact List.Pairwise.nil
  · intro i hi his
    have : start.tree.size = 1 := rfl
    omega

variable {b : Builder}

theorem top_lt (h : b.Sound) : b.top < b.tree.size := by
  rw [top]
  cases hs : b.scopes with
  | nil => exact h.root
  | cons id outer => exact h.scopes_lt id (hs ▸ List.mem_cons_self)

theorem sound_attach (h : b.Sound) {p : Nat} (hp : p < b.tree.size) (k : NodeKind)
    (l : Option String) : (b.attach p k l).Sound := by
  have hs : (b.attach p k l).tree.size = b.tree.size + 1 := SyntaxTree.size_attach hp
  refine ⟨SyntaxTree.linked_attach h.linked hp, by omega, ?_⟩
  intro id hid
  have := h.scopes_lt id hid
  omega

theorem sound_enter (h : b.Sound) (k : NodeKind) (l : Option String) : (b.enter k l).Sound := by
  have hs : (b.attach b.top k l).tree.size = b.tree.size + 1 := SyntaxTree.size_attach (top_lt h)
  have ha := sound_attach h (top_lt h) k l
  refine ⟨ha.linked, ha.root, ?_⟩
  intro id hid
  rcases List.mem_cons.1 hid with rfl | hid
  · exact hs ▸ Nat.lt_succ_self _
  · exact ha.scopes_lt id hid

theorem leave_eq (b : Builder) :
    b.leave = (b.scopes.head?, { b with scopes := b.scopes.tail }) := by
  obtain ⟨tree, scopes⟩ := b
  cases scopes <;> rfl

theorem sound_leave (h : b.Sound) : b.leave.2.Sound := by
  rw [leave_eq]
  exact ⟨h.linked, h.root, fun i hi => h.scopes_lt i (List.mem_of_mem_tail hi)⟩

theorem sound_amend (h : b.Sound) (id : Nat) (f : NodeKind → NodeKind)
    (g : Option String → Option String) : Sound { b with tree := b.tree.amend id f g } := by
  refine ⟨SyntaxTree.linked_amend h.linked, ?_, ?_⟩
  · rw [SyntaxTree.size_amend]
    exact h.root
  · intro i hi
    rw [SyntaxTree.size_amend]
    exact h.scopes_lt i hi

theorem attach_of_size_le {p : Nat} (hp : ¬ p < b.tree.size) (k : NodeKind) (l : Option String) :
    b.attach p k l = b := by
  rw [attach, SyntaxTree.attach, dif_neg hp]

theorem sound_apply (h : b.Sound) (e : Edit) : (b.apply e).Sound := by
  cases e with
  | enter kind label => exact sound_enter h kind label
  | leaf kind label => exact sound_attach h (top_lt h) kind label
  | attach parent kind label =>
    by_cases hp : parent < b.tree.size
    · exact sound_attach h hp kind label
    · rw [apply, attach_of_size_le hp]
      exact h
  | leave => exact sound_leave h
  | relabel id label => exact sound_amend h id _ _
  | recast id change => exact sound_amend h id _ _

/-- Every sequence of requests keeps the links of the tree. -/
theorem sound_run (h : b.Sound) (edits : List Edit) : (b.run edits).Sound := by
  induction edits generalizing b with
  | nil => exact h
  | cons e edits ih => exact ih (sound_apply h e)

theorem linked_finish (h : b.Sound) : b.finish.Linked :=
  ⟨h.linked.mem_children_iff, h.linked.increasing, h.linked.parent_of_pos⟩

end Builder

/-- The tree that a sequence of requests to a new builder makes. -/
def SyntaxTree.ofEdits (edits : List Builder.Edit) : SyntaxTree :=
  (Builder.start.run edits).finish

theorem SyntaxTree.linked_ofEdits (edits : List Builder.Edit) : (ofEdits edits).Linked :=
  Builder.linked_finish (Builder.sound_run Builder.sound_start edits)

end GrowthOrder
