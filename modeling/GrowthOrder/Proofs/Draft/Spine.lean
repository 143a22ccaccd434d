import GrowthOrder.Tree.Draft
import GrowthOrder.Proofs.Tree.Bare

/-!
# Drafts as spines of forests

A spine is a draft seen from its innermost scope: what stands before the place at hand in this
scope, in the scope around it, and so on up to the root. A construct adds a forest to the innermost
scope, opens a scope or closes one; the condition of a do-loop leaves the spine as it is. So every
tree that is read is, but for these conditions, the root with the forest of a spine below it.
-/
namespace GrowthOrder

inductive Spine
  | root (before : Forest)
  | scope (outer : Spine) (kind : NodeKind) (label : Option String) (before : Forest)

namespace Spine

/-- Puts a forest behind what stands in the innermost scope. -/
def add : Spine → Forest → Spine
  | root before, F => root (before ++ F)
  | scope outer kind label before, F => scope outer kind label (before ++ F)

/-- Closes the innermost scope, unless it is the root. -/
def close : Spine → Spine
  | root before => root before
  | scope outer kind label before => outer.add (.cons kind label before .nil)

/-- The kinds of the open scopes, innermost first. -/
def kinds : Spine → List NodeKind
  | root _ => [.program]
  | scope outer kind _ _ => kind :: outer.kinds

/-- The number of open scopes below the root. -/
def depth : Spine → Nat
  | root _ => 0
  | scope outer _ _ _ => outer.depth + 1

/-- What is below the root if a forest is put at the place at hand. -/
def around : Spine → Forest → Forest
  | root before, F => before ++ F
  | scope outer kind label before, F => outer.around (.cons kind label (before ++ F) .nil)

/-- What is below the root. -/
def forest (s : Spine) : Forest :=
  s.around .nil

/-- The builder that made the nodes of the spine in their order. -/
def builder : Spine → Builder
  | root before => Builder.start.graft 0 before
  | scope outer kind label before =>
    (outer.builder.enter kind label).graft outer.builder.tree.size before

end Spine

theorem Builder.graft_scopes (b : Builder) (scopes : List Nat) (p : Nat) (F : Forest) :
    Builder.graft { b with scopes } p F = { b.graft p F with scopes } := by
  induction F generalizing b p with
  | nil => rfl
  | cons k l ch sib ihc ihs =>
    have ha : Builder.attach { b with scopes } p k l = { b.attach p k l with scopes } := rfl
    rw [graft, graft, ha, ihc, ihs]

namespace Spine

variable {s : Spine} {F : Forest}

theorem top_builder_scope (o : Spine) (k : NodeKind) (l : Option String) (F : Forest) :
    (scope o k l F).builder.top = o.builder.tree.size := by
  rw [builder, Builder.top_graft]
  rfl

theorem builder_add (s : Spine) (F : Forest) :
    (s.add F).builder = s.builder.graft s.builder.top F := by
  cases s with
  | root before =>
    rw [add, builder, builder, Builder.graft_append, Builder.top_graft]
    rfl
  | scope outer kind label before =>
    rw [top_builder_scope, add, builder, builder, Builder.graft_append]

/-- The nodes are the same whether the innermost scope is open or closed. -/
theorem builder_scope (o : Spine) (k : NodeKind) (l : Option String) (F : Forest) :
    (scope o k l F).builder =
      { (o.add (.cons k l F .nil)).builder with
        scopes := o.builder.tree.size :: o.builder.scopes } := by
  rw [builder_add, builder, Builder.enter, Builder.graft_scopes]
  rfl

/-- Leaving the innermost scope of a builder closes that of its spine. -/
theorem leave_builder (s : Spine) : s.builder.leave.2 = s.close.builder := by
  cases s with
  | root before =>
    have hs : (root before).builder.scopes = [] := Builder.scopes_graft ..
    rw [Builder.leave_eq, hs, List.tail_nil, ← hs]
    rfl
  | scope outer kind label before =>
    have hs : outer.builder.scopes = (outer.add (.cons kind label before .nil)).builder.scopes := by
      rw [builder_add, Builder.scopes_graft]
    rw [builder_scope, Builder.leave_eq, close]
    change Builder.mk _ outer.builder.scopes = _
    rw [hs]

theorem length_scopes (s : Spine) : s.builder.scopes.length = s.depth := by
  induction s with
  | root before => rw [builder, Builder.scopes_graft]; rfl
  | scope outer kind label before ih =>
    rw [builder, Builder.scopes_graft, Builder.enter, List.length_cons, ih]
    rfl

theorem tree_builder_add (s : Spine) (F : Forest) :
    (s.add F).builder.tree = (Builder.start.graft 0 (s.around F)).tree := by
  induction s generalizing F with
  | root before => rfl
  | scope outer kind label before ih =>
    rw [around, ← ih, add, builder_scope]

theorem add_add (s : Spine) (F G : Forest) : (s.add F).add G = s.add (F ++ G) := by
  cases s with
  | root before => rw [add, add, add, Forest.append_assoc]
  | scope outer kind label before => rw [add, add, add, Forest.append_assoc]

theorem add_nil (s : Spine) : s.add .nil = s := by
  cases s with
  | root before => rw [add, Forest.append_nil]
  | scope outer kind label before => rw [add, Forest.append_nil]

/-- The tree of a spine is the root with the forest of the spine below it. -/
theorem grown_forest (s : Spine) : s.builder.tree.Grown s.forest := by
  have h := SyntaxTree.grown_graft s.forest
  rwa [forest, ← tree_builder_add, add_nil] at h

theorem grown_finish (s : Spine) : s.builder.finish.Grown s.forest := by
  obtain ⟨hsize, hroot, hshows⟩ := grown_forest s
  exact ⟨hsize, hroot, SyntaxTree.shows_of_agree (t := s.builder.tree) (fun _ _ _ => rfl) hshows⟩

theorem sound_builder (s : Spine) : s.builder.Sound := by
  induction s with
  | root before => exact Builder.sound_graft Builder.sound_start (by decide) before
  | scope outer kind label before ih =>
    refine Builder.sound_graft (Builder.sound_enter ih kind label) ?_ before
    have hs := SyntaxTree.size_attach (k := kind) (l := label) (Builder.top_lt ih)
    change _ < (outer.builder.tree.attach _ kind label).size
    omega

section Opened

variable (o : Spine) (k : NodeKind) (l : Option String) (F : Forest) {i : Nat}

theorem size_enter : (o.builder.enter k l).tree.size = o.builder.tree.size + 1 :=
  SyntaxTree.size_attach (Builder.top_lt (sound_builder o))

theorem parent_builder_scope (hi : i ≤ o.builder.tree.size) :
    (scope o k l F).builder.tree.parent i =
      if i = o.builder.tree.size then some o.builder.top else o.builder.tree.parent i := by
  have hs := size_enter o k l
  rw [builder, Builder.parent_graft (by omega) F (by omega)]
  exact SyntaxTree.parent_attach (Builder.top_lt (sound_builder o)) i

theorem kind_builder_scope (hi : i ≤ o.builder.tree.size) :
    (scope o k l F).builder.tree.kind i =
      if i = o.builder.tree.size then k else o.builder.tree.kind i := by
  have hs := size_enter o k l
  rw [builder, Builder.kind_graft (by omega) F (by omega)]
  exact SyntaxTree.kind_attach (Builder.top_lt (sound_builder o)) i

theorem kind_builder_closed :
    (o.add (.cons k l F .nil)).builder.tree.kind o.builder.tree.size = k := by
  have hk := kind_builder_scope o k l F (Nat.le_refl _)
  rwa [builder_scope, if_pos rfl] at hk

end Opened

/-- The kinds on the way up from the innermost scope. -/
theorem map_kind_lineage (s : Spine) :
    (s.builder.top :: s.builder.tree.lineage s.builder.top).map s.builder.tree.kind = s.kinds := by
  induction s with
  | root before =>
    have hk := (grown_forest (root before)).kind_root
    have hp := SyntaxTree.parent_of_node (grown_forest (root before)).root
    have ht : (root before).builder.top = 0 := Builder.top_graft ..
    rw [ht, SyntaxTree.lineage_of_none hp, List.map_singleton, hk, kinds]
  | scope outer kind label before ih =>
    have htop := Builder.top_lt (sound_builder outer)
    have hparent := parent_builder_scope outer kind label before (Nat.le_refl _)
    have hkind := kind_builder_scope outer kind label before (Nat.le_refl _)
    rw [if_pos rfl] at hparent hkind
    have hold : ∀ i < outer.builder.tree.size,
        (scope outer kind label before).builder.tree.parent i = outer.builder.tree.parent i ∧
        (scope outer kind label before).builder.tree.kind i = outer.builder.tree.kind i := by
      intro i hi
      rw [parent_builder_scope _ _ _ _ (by omega), kind_builder_scope _ _ _ _ (by omega),
        if_neg (by omega), if_neg (by omega)]
      exact ⟨rfl, rfl⟩
    rw [top_builder_scope, List.map_cons, hkind, SyntaxTree.lineage_of_parent hparent,
      SyntaxTree.lineage_of_agree fun i hi => (hold i (by omega)).1, kinds, ← ih]
    refine congrArg (kind :: ·) (List.map_congr_left fun i hi => (hold i ?_).2)
    rcases List.mem_cons.1 hi with rfl | hi
    · exact htop
    · have := SyntaxTree.mem_lineage_lt hi
      omega

end Spine

end GrowthOrder
