import GrowthOrder.Proofs.Tree.Links

/-!
# Ancestors and the order of a depth-first walk

The line of a node's proper ancestors, the nodes at and below a node in the order in which a
depth-first walk from left to right meets them, and how the two agree: a walk from a node meets
exactly the nodes that have it among their ancestors or are that node. Subtrees of different
children of one node have no node in common.
-/
namespace GrowthOrder

/-- Whether the children of a node of this kind are its parts, one after the other. -/
def NodeKind.isScope : NodeKind → Bool
  | program | block | conditional | functionDeclaration _ | loop _ _ => true
  | _ => false

/-- The name of the first function definition in a line of kinds. -/
def NodeKind.enclosingName (kinds : List NodeKind) : Option String :=
  (kinds.find? isFunction).bind functionName?

namespace SyntaxTree

/-- The proper ancestors of a node, the parent first. -/
def lineage (t : SyntaxTree) (id : Nat) : List Nat :=
  ((t.parent id).attach.map fun p => p.1 :: t.lineage p.1).getD []
termination_by id
decreasing_by exact parent_eq_some_lt p.2

/-- The nodes at and below a node, each before its children and these from left to right. -/
def preorder (t : SyntaxTree) (id : Nat) : List Nat :=
  t.fold (fun id below => id :: below.flatMap (·.2)) id

variable {t : SyntaxTree} {a c d id p u v : Nat}

theorem lineage_eq (t : SyntaxTree) (id : Nat) :
    t.lineage id = ((t.parent id).map fun p => p :: t.lineage p).getD [] := by
  rw [lineage]
  cases t.parent id <;> rfl

theorem parent_root (t : SyntaxTree) : t.parent 0 = none := by
  cases hp : t.parent 0 with
  | none => rfl
  | some p => exact absurd (parent_eq_some_lt hp) (Nat.not_lt_zero p)

theorem lineage_of_parent (h : t.parent u = some p) : t.lineage u = p :: t.lineage p := by
  rw [lineage_eq, h]
  rfl

theorem lineage_of_none (h : t.parent u = none) : t.lineage u = [] := by
  rw [lineage_eq, h]
  rfl

theorem preorder_eq (t : SyntaxTree) (id : Nat) :
    t.preorder id = id :: (t.children id).flatMap t.preorder := by
  rw [preorder, fold_eq, List.flatMap_map]
  rfl

theorem mem_preorder_self : id ∈ t.preorder id := by
  rw [preorder_eq]
  exact List.mem_cons_self

theorem mem_preorder_child (hc : c ∈ t.children id) (hu : u ∈ t.preorder c) :
    u ∈ t.preorder id := by
  rw [preorder_eq]
  exact List.mem_cons_of_mem _ (List.mem_flatMap_of_mem hc hu)

theorem mem_preorder_cases (h : u ∈ t.preorder id) :
    u = id ∨ ∃ c ∈ t.children id, u ∈ t.preorder c := by
  rw [preorder_eq] at h
  rcases List.mem_cons.1 h with h | h
  · exact .inl h
  · exact .inr (List.mem_flatMap.1 h)

/-- The line of an ancestor ends the line of the node. -/
theorem lineage_suffix (h : a ∈ t.lineage u) : a :: t.lineage a <:+ t.lineage u := by
  induction u using Nat.strongRecOn with
  | ind u ih =>
    cases hp : t.parent u with
    | none =>
      rw [lineage_of_none hp] at h
      cases h
    | some p =>
      rw [lineage_of_parent hp] at h ⊢
      rcases List.mem_cons.1 h with rfl | h
      · exact List.suffix_rfl
      · exact (ih p (parent_eq_some_lt hp) h).trans (List.suffix_cons _ _)

theorem mem_lineage_trans (hv : v ∈ t.lineage u) (ha : a ∈ t.lineage v) : a ∈ t.lineage u :=
  (lineage_suffix hv).subset (List.mem_cons_of_mem _ ha)

theorem mem_lineage_lt (h : a ∈ t.lineage u) : a < u := by
  induction u using Nat.strongRecOn with
  | ind u ih =>
    cases hp : t.parent u with
    | none =>
      rw [lineage_of_none hp] at h
      cases h
    | some p =>
      have hlt := parent_eq_some_lt hp
      rw [lineage_of_parent hp] at h
      rcases List.mem_cons.1 h with rfl | h
      · exact hlt
      · exact Nat.lt_trans (ih p hlt h) hlt

theorem lt_size_of_mem_lineage (h : a ∈ t.lineage u) : u < t.size := by
  cases hp : t.parent u with
  | none =>
    rw [lineage_of_none hp] at h
    cases h
  | some p => exact parent_lt_size hp

theorem lineage_of_mem_children (ht : t.Linked) (hc : c ∈ t.children id) :
    t.lineage c = id :: t.lineage id :=
  lineage_of_parent ((ht.mem_children_iff id c).1 hc)

/-- A node follows its parent wherever a walk meets the parent. -/
theorem mem_preorder_of_parent (ht : t.Linked) (hp : t.parent u = some p)
    (h : p ∈ t.preorder id) : u ∈ t.preorder id := by
  induction id using t.induction with
  | step id ih =>
    rcases mem_preorder_cases h with rfl | ⟨c, hc, hpc⟩
    · exact mem_preorder_child ((ht.mem_children_iff p u).2 hp) mem_preorder_self
    · exact mem_preorder_child hc (ih c hc hpc)

theorem mem_lineage_of_mem_children (ht : t.Linked) (hc : c ∈ t.children id)
    (hu : c ∈ u :: t.lineage u) : id ∈ t.lineage u := by
  have hid : id ∈ t.lineage c := by
    rw [lineage_of_mem_children ht hc]
    exact List.mem_cons_self
  rcases List.mem_cons.1 hu with rfl | hcu
  · exact hid
  · exact mem_lineage_trans hcu hid

/-- A walk from a node meets the node and the nodes below it, and no others. -/
theorem mem_preorder_iff (ht : t.Linked) : u ∈ t.preorder id ↔ id ∈ u :: t.lineage u := by
  constructor
  · induction id using t.induction with
    | step id ih =>
      intro h
      rcases mem_preorder_cases h with rfl | ⟨c, hc, hu⟩
      · exact List.mem_cons_self
      · exact List.mem_cons_of_mem _ (mem_lineage_of_mem_children ht hc (ih c hc hu))
  · induction u using Nat.strongRecOn with
    | ind u ih =>
      intro h
      rcases List.mem_cons.1 h with rfl | h
      · exact mem_preorder_self
      · cases hp : t.parent u with
        | none =>
          rw [lineage_of_none hp] at h
          cases h
        | some p =>
          rw [lineage_of_parent hp] at h
          exact mem_preorder_of_parent ht hp (ih p (parent_eq_some_lt hp) h)

theorem le_of_mem_preorder (ht : t.Linked) (h : u ∈ t.preorder id) : id ≤ u := by
  rcases List.mem_cons.1 ((mem_preorder_iff ht).1 h) with rfl | h
  · exact Nat.le_refl _
  · exact Nat.le_of_lt (mem_lineage_lt h)

/-- Subtrees of different children of one node have no node in common. -/
theorem child_unique (ht : t.Linked) (hc : c ∈ t.children id) (hd : d ∈ t.children id)
    (huc : u ∈ t.preorder c) (hud : u ∈ t.preorder d) : c = d := by
  have hsuffix : ∀ x, x ∈ t.children id → u ∈ t.preorder x →
      x :: id :: t.lineage id <:+ u :: t.lineage u := by
    intro x hx hux
    rw [← lineage_of_mem_children ht hx]
    rcases List.mem_cons.1 ((mem_preorder_iff ht).1 hux) with rfl | h
    · exact List.suffix_rfl
    · exact (lineage_suffix h).trans (List.suffix_cons _ _)
  have h := List.IsSuffix.eq_of_length (List.suffix_of_suffix_length_le (hsuffix c hc huc)
    (hsuffix d hd hud) (Nat.le_refl _)) rfl
  exact (List.cons.inj h).1

/-- An ancestor of a node below a child is below the child, or is at or above the child's
parent. -/
theorem mem_lineage_cases (ht : t.Linked) (hc : c ∈ t.children id) (hu : u ∈ t.preorder c)
    (hv : v ∈ t.lineage u) : v ∈ t.preorder c ∨ v ∈ id :: t.lineage id := by
  rcases List.mem_cons.1 ((mem_preorder_iff ht).1 hu) with rfl | hcu
  · rw [lineage_of_mem_children ht hc] at hv
    exact .inr hv
  · have hs := lineage_suffix hcu
    rcases List.suffix_or_suffix_of_suffix hs (lineage_suffix hv) with h | h
    · refine .inl ((mem_preorder_iff ht).2 ?_)
      exact h.subset List.mem_cons_self
    · have hvc := h.subset (List.mem_cons_self (a := v))
      rcases List.mem_cons.1 hvc with rfl | hvc
      · exact .inl mem_preorder_self
      · rw [lineage_of_mem_children ht hc] at hvc
        exact .inr hvc

theorem mem_lineage_of_child (ht : t.Linked) (hc : c ∈ t.children id) (hu : u ∈ t.preorder c) :
    id ∈ t.lineage u :=
  mem_lineage_of_mem_children ht hc ((mem_preorder_iff ht).1 hu)

/-- Every node is at or below the root. -/
theorem mem_preorder_root (ht : t.Linked) (hu : u < t.size) : u ∈ t.preorder 0 := by
  rw [mem_preorder_iff ht]
  induction u using Nat.strongRecOn with
  | ind u ih =>
    rcases Nat.eq_zero_or_pos u with rfl | hpos
    · exact List.mem_cons_self
    · obtain ⟨p, hp⟩ := ht.parent_of_pos u hpos hu
      have hlt := parent_eq_some_lt hp
      rw [lineage_of_parent hp]
      exact List.mem_cons_of_mem _ (ih p hlt (Nat.lt_trans hlt hu))

/-- The enclosing function is the first definition on the way up. -/
theorem enclosingFunction?_eq_find (t : SyntaxTree) (id : Nat) :
    t.enclosingFunction? id = (id :: t.lineage id).find? fun u => (t.kind u).isFunction := by
  induction id using Nat.strongRecOn with
  | ind id ih =>
    rw [enclosingFunction?_eq, List.find?_cons]
    cases hf : (t.kind id).isFunction with
    | true => rfl
    | false =>
      cases hp : t.parent id with
      | none => rw [lineage_of_none hp]; rfl
      | some p =>
        rw [lineage_of_parent hp]
        exact ih p (parent_eq_some_lt hp)

theorem enclosingFunction?_name (t : SyntaxTree) (id : Nat) :
    ((t.enclosingFunction? id).bind fun u => (t.kind u).functionName?) =
      NodeKind.enclosingName ((id :: t.lineage id).map t.kind) := by
  rw [enclosingFunction?_eq_find, NodeKind.enclosingName, List.find?_map, Option.bind_map]
  rfl

/-- The way up from a node does not depend on the nodes after it. -/
theorem lineage_of_agree {t' : SyntaxTree} (h : ∀ i ≤ u, t'.parent i = t.parent i) :
    t'.lineage u = t.lineage u := by
  induction u using Nat.strongRecOn with
  | ind u ih =>
    rw [lineage_eq, lineage_eq, h u (Nat.le_refl u)]
    cases hp : t.parent u with
    | none => rfl
    | some p =>
      have hlt := parent_eq_some_lt hp
      rw [Option.map_some, Option.map_some, ih p hlt fun i hi => h i (by omega)]

end SyntaxTree

end GrowthOrder
