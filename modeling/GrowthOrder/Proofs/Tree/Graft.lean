import GrowthOrder.Proofs.Tree.Descent

/-!
# Forests put into a tree

A forest that is put under a node of a tree keeps its shape and gets consecutive numbers in the
order of a depth-first walk. `Shows` says that a tree holds a forest under a parent from a number
on; what holds of every node of the forest, given the kinds above it, then holds of the nodes of
the tree that have these numbers.
-/
namespace GrowthOrder

namespace Forest

def append : Forest → Forest → Forest
  | nil, G => G
  | cons kind label children siblings, G => cons kind label children (siblings.append G)

instance : Append Forest := ⟨append⟩

/-- The number of nodes. -/
def size : Forest → Nat
  | nil => 0
  | cons _ _ children siblings => 1 + children.size + siblings.size

/-- The numbers of the outermost nodes, if numbers are given from `n` on. -/
def roots (n : Nat) : Forest → List Nat
  | nil => []
  | cons _ _ children siblings => n :: siblings.roots (n + 1 + children.size)

/-- A property of all nodes, which may depend on the kinds of a node's ancestors, the innermost
first, on its kind and label, and on what is below it. -/
def Each (P : List NodeKind → NodeKind → Option String → Forest → Prop) (above : List NodeKind) :
    Forest → Prop
  | nil => True
  | cons kind label children siblings =>
    P above kind label children ∧ children.Each P (kind :: above) ∧ siblings.Each P above

variable {F G : Forest} {P : List NodeKind → NodeKind → Option String → Forest → Prop}
  {above : List NodeKind}

@[simp] theorem nil_append (G : Forest) : nil ++ G = G := rfl

@[simp] theorem cons_append (k : NodeKind) (l : Option String) (ch sib G : Forest) :
    cons k l ch sib ++ G = cons k l ch (sib ++ G) := rfl

theorem append_assoc (F G H : Forest) : F ++ G ++ H = F ++ (G ++ H) := by
  induction F with
  | nil => rfl
  | cons k l ch sib _ ih => exact congrArg (cons k l ch) ih

theorem append_nil (F : Forest) : F ++ nil = F := by
  induction F with
  | nil => rfl
  | cons k l ch sib _ ih => exact congrArg (cons k l ch) ih

theorem expressions_append (texts more : List String) :
    expressions (texts ++ more) = expressions texts ++ expressions more := by
  induction texts with
  | nil => rfl
  | cons text texts ih => exact congrArg (cons .expression (some text) nil) ih

theorem each_append : (F ++ G).Each P above ↔ F.Each P above ∧ G.Each P above := by
  induction F with
  | nil => simp [Each]
  | cons k l ch sib _ ih => simp only [cons_append, Each, ih, and_assoc]

end Forest

namespace Builder

variable {b : Builder} {p : Nat} {F : Forest}

theorem scopes_graft (b : Builder) (p : Nat) (F : Forest) : (b.graft p F).scopes = b.scopes := by
  induction F generalizing b p with
  | nil => rfl
  | cons k l ch sib ihc ihs => rw [graft, ihs, ihc, attach]

theorem top_graft (b : Builder) (p : Nat) (F : Forest) : (b.graft p F).top = b.top := by
  rw [top, scopes_graft, top]

theorem graft_append (b : Builder) (p : Nat) (F G : Forest) :
    b.graft p (F ++ G) = (b.graft p F).graft p G := by
  induction F generalizing b with
  | nil => rfl
  | cons k l ch sib _ ih => rw [Forest.cons_append, graft, graft, ih]

theorem size_graft (hp : p < b.tree.size) (F : Forest) :
    (b.graft p F).tree.size = b.tree.size + F.size := by
  induction F generalizing b p with
  | nil => rfl
  | cons k l ch sib ihc ihs =>
    have hs : (b.attach p k l).tree.size = b.tree.size + 1 := SyntaxTree.size_attach hp
    have hc := ihc (b := b.attach p k l) (p := b.tree.size) (by omega)
    rw [graft, ihs (by omega), hc, hs, Forest.size]
    omega

/-- Old nodes stay as they are, but for the new children of the parent. -/
theorem getElem?_graft (hp : p < b.tree.size) (F : Forest) {i : Nat} (hi : i < b.tree.size) :
    (b.graft p F).tree.nodes[i]? = if p = i then
      b.tree.nodes[i]?.map fun n => { n with children := n.children ++ F.roots b.tree.size }
    else b.tree.nodes[i]? := by
  induction F generalizing b p with
  | nil =>
    simp only [graft, Forest.roots, List.append_nil]
    split
    · cases b.tree.nodes[i]? <;> rfl
    · rfl
  | cons k l ch sib ihc ihs =>
    have hs : (b.attach p k l).tree.size = b.tree.size + 1 := SyntaxTree.size_attach hp
    have hlt : b.tree.size < (b.attach p k l).tree.size := by omega
    have hc : ((b.attach p k l).graft b.tree.size ch).tree.size = b.tree.size + 1 + ch.size := by
      rw [size_graft hlt, hs]
    have ha : (b.attach p k l).tree.nodes[i]? =
        if p = i then
          b.tree.nodes[i]?.map fun n => { n with children := n.children ++ [b.tree.size] }
        else b.tree.nodes[i]? := by
      rw [attach, SyntaxTree.getElem?_attach hp, if_neg (by omega)]
    have hne : b.tree.size ≠ i := by omega
    rw [graft, ihs (by omega) (by omega), hc, ihc hlt (by omega), if_neg hne, ha]
    by_cases hpi : p = i
    · rw [if_pos hpi, if_pos hpi, if_pos hpi, Option.map_map]
      refine congrArg (Option.map · _) (funext fun n => ?_)
      simp [Forest.roots]
    · rw [if_neg hpi, if_neg hpi, if_neg hpi]

theorem getElem?_graft_of_ne (hp : p < b.tree.size) (F : Forest) {i : Nat} (hi : i < b.tree.size)
    (hpi : p ≠ i) : (b.graft p F).tree.nodes[i]? = b.tree.nodes[i]? := by
  rw [getElem?_graft hp F hi, if_neg hpi]

theorem kind_graft (hp : p < b.tree.size) (F : Forest) {i : Nat} (hi : i < b.tree.size) :
    (b.graft p F).tree.kind i = b.tree.kind i := by
  rw [SyntaxTree.kind, SyntaxTree.kind, getElem?_graft hp F hi]
  split
  · cases b.tree.nodes[i]? <;> rfl
  · rfl

theorem parent_graft (hp : p < b.tree.size) (F : Forest) {i : Nat} (hi : i < b.tree.size) :
    (b.graft p F).tree.parent i = b.tree.parent i := by
  rw [SyntaxTree.parent, SyntaxTree.parent, getElem?_graft hp F hi]
  split
  · cases b.tree.nodes[i]? <;> rfl
  · rfl

theorem label_graft (hp : p < b.tree.size) (F : Forest) {i : Nat} (hi : i < b.tree.size) :
    (b.graft p F).tree.label i = b.tree.label i := by
  rw [SyntaxTree.label, SyntaxTree.label, getElem?_graft hp F hi]
  split
  · cases b.tree.nodes[i]? <;> rfl
  · rfl

theorem sound_graft (h : b.Sound) (hp : p < b.tree.size) (F : Forest) : (b.graft p F).Sound := by
  induction F generalizing b p with
  | nil => exact h
  | cons k l ch sib ihc ihs =>
    have hs : (b.attach p k l).tree.size = b.tree.size + 1 := SyntaxTree.size_attach hp
    have hc := ihc (sound_attach h hp k l) (p := b.tree.size) (by omega)
    refine ihs hc ?_
    rw [size_graft (by omega)]
    omega

end Builder

namespace SyntaxTree

/-- The tree holds a forest under `p`, with the numbers from `n` on. -/
def Shows (t : SyntaxTree) (p n : Nat) : Forest → Prop
  | .nil => True
  | .cons kind label children siblings =>
    t.nodes[n]? = some { kind, label, parent := some p, children := children.roots (n + 1) } ∧
      t.Shows n (n + 1) children ∧ t.Shows p (n + 1 + children.size) siblings

theorem shows_of_agree {t t' : SyntaxTree} {p n : Nat} {F : Forest}
    (ha : ∀ i, n ≤ i → i < n + F.size → t'.nodes[i]? = t.nodes[i]?) (h : t.Shows p n F) :
    t'.Shows p n F := by
  induction F generalizing p n with
  | nil => trivial
  | cons k l ch sib ihc ihs =>
    obtain ⟨hn, hc, hs⟩ := h
    have hsize : (Forest.cons k l ch sib).size = 1 + ch.size + sib.size := rfl
    refine ⟨(ha n (by omega) (by omega)).trans hn, ihc ?_ hc, ihs ?_ hs⟩
    · exact fun i h1 h2 => ha i (by omega) (by omega)
    · exact fun i h1 h2 => ha i (by omega) (by omega)

/-- A tree holds a forest that was put under one of its nodes. -/
theorem shows_graft {b : Builder} {p : Nat} (hp : p < b.tree.size) (F : Forest) :
    (b.graft p F).tree.Shows p b.tree.size F := by
  induction F generalizing b p with
  | nil => trivial
  | cons k l ch sib ihc ihs =>
    have hs : (b.attach p k l).tree.size = b.tree.size + 1 := size_attach hp
    have hlt : b.tree.size < (b.attach p k l).tree.size := by omega
    have hc : ((b.attach p k l).graft b.tree.size ch).tree.size = b.tree.size + 1 + ch.size := by
      rw [Builder.size_graft hlt, hs]
    have hkeep : ∀ i, b.tree.size ≤ i → i < b.tree.size + 1 + ch.size →
        (b.graft p (.cons k l ch sib)).tree.nodes[i]? =
          ((b.attach p k l).graft b.tree.size ch).tree.nodes[i]? := fun i h1 h2 =>
      Builder.getElem?_graft_of_ne (by omega) sib (by omega) (by omega)
    have hnew : (b.attach p k l).tree.nodes[b.tree.size]? =
        some { kind := k, label := l, parent := some p, children := [] } := by
      rw [Builder.attach, getElem?_attach hp, if_pos rfl]
    refine ⟨?_, ?_, ?_⟩
    · rw [hkeep _ (by omega) (by omega), Builder.getElem?_graft hlt ch hlt, if_pos rfl, hnew, hs]
      rfl
    · refine shows_of_agree (fun i h1 h2 => hkeep i (by omega) (by omega)) ?_
      rw [← hs]
      exact ihc hlt
    · rw [← hc]
      exact ihs (by omega)

variable {t : SyntaxTree} {p n u : Nat} {F : Forest}

/-- A walk meets the nodes of a forest in the order of their numbers. -/
theorem flatMap_preorder_roots (h : t.Shows p n F) :
    (F.roots n).flatMap t.preorder = List.range' n F.size := by
  induction F generalizing p n with
  | nil => rfl
  | cons k l ch sib ihc ihs =>
    obtain ⟨hn, hc, hs⟩ := h
    have hch : t.children n = ch.roots (n + 1) := children_of_node hn
    rw [Forest.roots, List.flatMap_cons, preorder_eq, hch, ihc hc, ihs hs, Forest.size,
      Nat.add_assoc, ← List.range'_append_1, ← List.range'_append_1]
    simp [List.range'_succ]

/-- What holds of every node of a forest holds of the nodes that show it. -/
theorem exists_of_each {P : List NodeKind → NodeKind → Option String → Forest → Prop}
    (h : t.Shows p n F) (hF : F.Each P ((p :: t.lineage p).map t.kind)) (hu : n ≤ u)
    (hu' : u < n + F.size) : ∃ below, P ((t.lineage u).map t.kind) (t.kind u) (t.label u) below ∧
      t.children u = below.roots (u + 1) ∧ t.Shows u (u + 1) below := by
  induction F generalizing p n with
  | nil =>
    have : n + Forest.nil.size = n := rfl
    omega
  | cons k l ch sib ihc ihs =>
    obtain ⟨hn, hc, hs⟩ := h
    obtain ⟨hP, hFc, hFs⟩ := hF
    have hsize : (Forest.cons k l ch sib).size = 1 + ch.size + sib.size := rfl
    have hk : t.kind n = k := kind_of_node hn
    have hl : t.lineage n = p :: t.lineage p := lineage_of_parent (parent_of_node hn)
    by_cases hun : u = n
    · subst hun
      have hlabel : t.label u = l := label_of_node hn
      refine ⟨ch, ?_, children_of_node hn, hc⟩
      rw [hl, hk, hlabel]
      exact hP
    · by_cases huc : u < n + 1 + ch.size
      · refine ihc hc ?_ (by omega) (by omega)
        rw [List.map_cons, hl, hk]
        exact hFc
      · exact ihs hs hFs (by omega) (by omega)

/-- The tree is a root with a forest below it. -/
structure Grown (t : SyntaxTree) (F : Forest) : Prop where
  size_eq : t.size = F.size + 1
  root : t.nodes[0]? = some
    { kind := .program, label := some "program", parent := none, children := F.roots 1 }
  shows : t.Shows 0 1 F

theorem grown_graft (F : Forest) : (Builder.start.graft 0 F).tree.Grown F := by
  refine ⟨?_, ?_, shows_graft (b := Builder.start) (by decide) F⟩
  · rw [Builder.size_graft (by decide), Nat.add_comm]
    rfl
  · rw [Builder.getElem?_graft (by decide) F (by decide), if_pos rfl]
    rfl

theorem Grown.children_root (h : t.Grown F) : t.children 0 = F.roots 1 :=
  children_of_node h.root

theorem Grown.kind_root (h : t.Grown F) : t.kind 0 = .program :=
  kind_of_node h.root

/-- Numbers follow the order of a depth-first walk. -/
theorem Grown.preorder_root (h : t.Grown F) : t.preorder 0 = List.range t.size := by
  rw [preorder_eq, h.children_root, flatMap_preorder_roots h.shows, h.size_eq,
    List.range_eq_range', List.range'_succ]

theorem Grown.exists_of_each {P : List NodeKind → NodeKind → Option String → Forest → Prop}
    (h : t.Grown F) (hF : F.Each P [.program]) (hu : 0 < u) (hs : u < t.size) :
    ∃ below, P ((t.lineage u).map t.kind) (t.kind u) (t.label u) below ∧
      t.children u = below.roots (u + 1) ∧ t.Shows u (u + 1) below := by
  have hroot : (0 :: t.lineage 0).map t.kind = [.program] := by
    rw [lineage_of_none (parent_of_node h.root), List.map_singleton, h.kind_root]
  have hsize := h.size_eq
  exact SyntaxTree.exists_of_each h.shows (hroot ▸ hF) (by omega) (by omega)

end SyntaxTree

end GrowthOrder
