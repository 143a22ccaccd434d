import GrowthOrder.Proofs.Tree.Bare

/-!
# How loops and conditionals nest

A nesting is what is left of a forest or a tree if only its loops and conditionals are kept. The
nesting of a tree, and what its nodes have by their kinds, one after the other, are those of the
forest below its root.
-/
namespace GrowthOrder

/-- Loops and conditionals beside and inside each other, from left to right. -/
inductive Nesting
  | nil
  | loop (form : LoopForm) (inside after : Nesting)
  | branch (inside after : Nesting)
  deriving DecidableEq

namespace Nesting

def append : Nesting → Nesting → Nesting
  | nil, M => M
  | loop form inside after, M => loop form inside (after.append M)
  | branch inside after, M => branch inside (after.append M)

instance : Append Nesting := ⟨append⟩

/-- The greatest number of loops around one another. -/
def loopDepth : Nesting → Nat
  | nil => 0
  | loop _ inside after => max (inside.loopDepth + 1) after.loopDepth
  | branch inside after => max inside.loopDepth after.loopDepth

@[simp] theorem nil_append (M : Nesting) : nil ++ M = M := rfl

@[simp] theorem loop_append (form : LoopForm) (inside after M : Nesting) :
    loop form inside after ++ M = loop form inside (after ++ M) := rfl

@[simp] theorem branch_append (inside after M : Nesting) :
    branch inside after ++ M = branch inside (after ++ M) := rfl

@[simp] theorem append_nil (N : Nesting) : N ++ nil = N := by
  induction N with
  | nil => rfl
  | loop form inside after _ ih => rw [loop_append, ih]
  | branch inside after _ ih => rw [branch_append, ih]

theorem append_assoc (N M K : Nesting) : N ++ M ++ K = N ++ (M ++ K) := by
  induction N with
  | nil => rfl
  | loop form inside after _ ih => rw [loop_append, loop_append, loop_append, ih]
  | branch inside after _ ih => rw [branch_append, branch_append, branch_append, ih]

theorem loopDepth_append (N M : Nesting) :
    (N ++ M).loopDepth = max N.loopDepth M.loopDepth := by
  induction N with
  | nil => exact (Nat.zero_max _).symm
  | loop form inside after _ ih => rw [loop_append, loopDepth, loopDepth, ih, Nat.max_assoc]
  | branch inside after _ ih => rw [branch_append, loopDepth, loopDepth, ih, Nat.max_assoc]

end Nesting

/-- What a node of this kind makes of the nesting of its children. -/
def NodeKind.nest (inside : Nesting) : NodeKind → Nesting
  | loop form _ => .loop form inside .nil
  | conditional => .branch inside .nil
  | _ => inside

namespace Forest

def nesting : Forest → Nesting
  | nil => .nil
  | cons kind _ children siblings => kind.nest children.nesting ++ siblings.nesting

/-- What the nodes have by their kinds, each node before its children. -/
def collect {α : Type} (f : NodeKind → Option α) : Forest → List α
  | nil => []
  | cons kind _ children siblings => (f kind).toList ++ (children.collect f ++ siblings.collect f)

@[simp] theorem nesting_append (F G : Forest) : (F ++ G).nesting = F.nesting ++ G.nesting := by
  induction F with
  | nil => rfl
  | cons k l ch sib _ ih => rw [cons_append, nesting, nesting, ih, Nesting.append_assoc]

theorem collect_append {α : Type} (f : NodeKind → Option α) (F G : Forest) :
    (F ++ G).collect f = F.collect f ++ G.collect f := by
  induction F with
  | nil => rfl
  | cons k l ch sib _ ih => simp only [cons_append, collect, ih, List.append_assoc]

end Forest

namespace SyntaxTree

/-- The loops and conditionals at and below a node. -/
def nesting (t : SyntaxTree) (id : Nat) : Nesting :=
  t.fold (fun id below => (t.kind id).nest (below.foldr (fun c N => c.2 ++ N) .nil)) id

/-- What the nodes have by their kinds, in the order of their numbers. -/
def collect {α : Type} (f : NodeKind → Option α) (t : SyntaxTree) : List α :=
  (List.range t.size).filterMap fun u => f (t.kind u)

/-- The loops and conditionals at and below some nodes. -/
def nestingOf (t : SyntaxTree) (ids : List Nat) : Nesting :=
  (ids.map t.nesting).foldr (· ++ ·) .nil

variable {t t' : SyntaxTree} {p n : Nat} {F : Forest}

theorem nesting_eq (t : SyntaxTree) (id : Nat) :
    t.nesting id = (t.kind id).nest (t.nestingOf (t.children id)) := by
  rw [nesting, fold_eq, List.foldr_map, nestingOf, List.foldr_map]
  rfl

theorem nestingOf_shows (h : t.Shows p n F) : t.nestingOf (F.roots n) = F.nesting := by
  induction F generalizing p n with
  | nil => rfl
  | cons k l ch sib ihc ihs =>
    obtain ⟨hn, hc, hs⟩ := h
    have hk : t.kind n = k := kind_of_node hn
    have hch : t.children n = ch.roots (n + 1) := children_of_node hn
    have hsib : t.nestingOf (sib.roots (n + 1 + ch.size)) = sib.nesting := ihs hs
    rw [Forest.roots, nestingOf, List.map_cons, List.foldr_cons, nesting_eq, hk, hch, ihc hc,
      Forest.nesting, ← hsib]
    rfl

theorem Grown.nesting_root (h : t.Grown F) : t.nesting 0 = F.nesting := by
  rw [nesting_eq, h.kind_root, h.children_root, nestingOf_shows h.shows]
  rfl

theorem filterMap_range'_shows {α : Type} (f : NodeKind → Option α) (h : t.Shows p n F) :
    (List.range' n F.size).filterMap (fun u => f (t.kind u)) = F.collect f := by
  induction F generalizing p n with
  | nil => rfl
  | cons k l ch sib ihc ihs =>
    obtain ⟨hn, hc, hs⟩ := h
    have hk : t.kind n = k := kind_of_node hn
    rw [Forest.size, Nat.add_assoc, Nat.add_comm 1, List.range'_succ, List.filterMap_cons, hk,
      ← List.range'_append_1, List.filterMap_append, ihc hc, ihs hs, Forest.collect]
    cases f k <;> rfl

theorem Grown.collect_eq {α : Type} (f : NodeKind → Option α) (h : t.Grown F) :
    t.collect f = (f .program).toList ++ F.collect f := by
  rw [collect, h.size_eq, List.range_eq_range', List.range'_succ, List.filterMap_cons,
    h.kind_root, filterMap_range'_shows f h.shows]
  cases f .program <;> rfl

theorem collect_alike {α : Type} {f : NodeKind → Option α} (hf : ∀ k, f k.bare = f k)
    (h : t.bare = t'.bare) : t.collect f = t'.collect f := by
  rw [collect, collect, size_alike h]
  refine congrArg (List.filterMap · _) (funext fun u => ?_)
  rw [← hf, kind_alike h, hf]

theorem nesting_bare (t : SyntaxTree) (id : Nat) : t.bare.nesting id = t.nesting id := by
  induction id using t.induction with
  | step id ih =>
    have hbelow : t.bare.nestingOf (t.children id) = t.nestingOf (t.children id) := by
      rw [nestingOf, List.map_congr_left ih, nestingOf]
    rw [nesting_eq, nesting_eq, children_bare, kind_bare, hbelow]
    rcases NodeKind.bare_cases (t.kind id) with hk | ⟨header, hk⟩
    · rw [hk]
    · rw [hk]
      rfl

theorem nesting_alike (h : t.bare = t'.bare) (id : Nat) : t.nesting id = t'.nesting id := by
  rw [← nesting_bare, h, nesting_bare]

end SyntaxTree

end GrowthOrder
