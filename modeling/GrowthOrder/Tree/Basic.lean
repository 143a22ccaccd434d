import GrowthOrder.Tree.Node
/-!
Syntax trees: a table of nodes in which every child comes after its parent. The order makes every
walk up or down the tree end, so the walks below are total on all trees; that each node hangs under
exactly one parent holds of the trees that a builder makes and is not part of the type.
-/
namespace GrowthOrder

/-- A table of nodes, numbered from zero. -/
structure SyntaxTree where
  nodes : Array Node := #[]
  /-- The scopes still open when the tree was finished. -/
  unclosedScopes : Nat := 0
  child_range : ∀ (i : Nat) (n : Node), nodes[i]? = some n →
    ∀ c ∈ n.children, i < c ∧ c < nodes.size := by simp
  parent_lt : ∀ (i : Nat) (n : Node), nodes[i]? = some n →
    ∀ p, n.parent = some p → p < i := by simp

namespace SyntaxTree

/-- The tree without nodes. -/
def empty : SyntaxTree := {}

def size (t : SyntaxTree) : Nat :=
  t.nodes.size

def root? (t : SyntaxTree) : Option Nat :=
  if t.size = 0 then none else some 0

def kind (t : SyntaxTree) (id : Nat) : NodeKind :=
  (t.nodes[id]?.map (·.kind)).getD .unknown

def label (t : SyntaxTree) (id : Nat) : Option String :=
  t.nodes[id]?.bind (·.label)

def text (t : SyntaxTree) (id : Nat) : String :=
  (t.label id).getD ""

def parent (t : SyntaxTree) (id : Nat) : Option Nat :=
  t.nodes[id]?.bind (·.parent)

def children (t : SyntaxTree) (id : Nat) : List Nat :=
  (t.nodes[id]?.map (·.children)).getD []

theorem mem_children_range {t : SyntaxTree} {id c : Nat} (h : c ∈ t.children id) :
    id < c ∧ c < t.size := by
  unfold children at h
  cases hn : t.nodes[id]? with
  | none => simp [hn] at h
  | some n => exact t.child_range id n hn c (by simpa [hn] using h)

theorem parent_eq_some_lt {t : SyntaxTree} {id p : Nat} (h : t.parent id = some p) :
    p < id := by
  obtain ⟨n, hn, hp⟩ := Option.bind_eq_some_iff.1 h
  exact t.parent_lt id n hn p hp

/-- Evaluation from the leaves up: `f` makes a node's value from the node's number and from the
numbers and values of its children. -/
def fold {α : Type} (t : SyntaxTree) (f : Nat → List (Nat × α) → α) (id : Nat) : α :=
  f id ((t.children id).attach.map fun c => (c.1, t.fold f c.1))
termination_by t.size - id
decreasing_by
  have := mem_children_range c.2
  omega

theorem fold_eq {α : Type} (t : SyntaxTree) (f : Nat → List (Nat × α) → α) (id : Nat) :
    t.fold f id = f id ((t.children id).map fun c => (c, t.fold f c)) := by
  rw [fold]
  simp

/-- A property that passes from all children of a node to the node holds everywhere. -/
theorem induction {t : SyntaxTree} {P : Nat → Prop}
    (step : ∀ id, (∀ c ∈ t.children id, P c) → P id) (id : Nat) : P id :=
  step id fun c h =>
    have := mem_children_range h
    induction step c
termination_by t.size - id

/-- The innermost function definition at or above a node. -/
def enclosingFunction? (t : SyntaxTree) (id : Nat) : Option Nat :=
  if (t.kind id).isFunction then some id
  else (t.parent id).attach.bind fun p => t.enclosingFunction? p.1
termination_by id
decreasing_by exact parent_eq_some_lt p.2

theorem enclosingFunction?_eq (t : SyntaxTree) (id : Nat) :
    t.enclosingFunction? id =
      if (t.kind id).isFunction then some id else (t.parent id).bind t.enclosingFunction? := by
  rw [enclosingFunction?]
  cases t.parent id <;> rfl

/-- The nodes with a tag, in the order of their numbers. -/
def withTag (t : SyntaxTree) (tag : String) : List Nat :=
  (List.range t.size).filter fun id => (t.kind id).tag == tag

/-- Adds a node under an existing one; its number is the size of the tree before. Numbers are not
bounded here. They stand for numbers of 32 bits, so trees are assumed to have fewer than 2^32
nodes. -/
def attach (t : SyntaxTree) (parent : Nat) (kind : NodeKind) (label : Option String) :
    SyntaxTree :=
  if h : parent < t.size then
    { nodes := (t.nodes.modify parent fun n => { n with children := n.children ++ [t.size] }).push
        { kind, label, parent := some parent, children := [] }
      unclosedScopes := t.unclosedScopes
      child_range := by
        intro i n hn c hc
        rw [Array.getElem?_push, Array.size_modify, Array.getElem?_modify] at hn
        rw [Array.size_push, Array.size_modify]
        have hs : t.size = t.nodes.size := rfl
        split at hn
        · obtain rfl := Option.some.inj hn
          simp at hc
        · split at hn
          · obtain ⟨m, hm, rfl⟩ := Option.map_eq_some_iff.1 hn
            rcases List.mem_append.1 hc with hc | hc
            · have := t.child_range i m hm c hc
              omega
            · have := List.mem_singleton.1 hc
              omega
          · have := t.child_range i n hn c hc
            omega
      parent_lt := by
        intro i n hn p hp
        rw [Array.getElem?_push, Array.size_modify, Array.getElem?_modify] at hn
        have hs : t.size = t.nodes.size := rfl
        split at hn
        · obtain rfl := Option.some.inj hn
          have := Option.some.inj hp
          omega
        · split at hn
          · obtain ⟨m, hm, rfl⟩ := Option.map_eq_some_iff.1 hn
            exact t.parent_lt i m hm p hp
          · exact t.parent_lt i n hn p hp }
  else t

/-- Changes what a node stands for and its label, not its place. -/
def amend (t : SyntaxTree) (id : Nat) (kind : NodeKind → NodeKind)
    (label : Option String → Option String) : SyntaxTree where
  nodes := t.nodes.modify id fun n => { n with kind := kind n.kind, label := label n.label }
  unclosedScopes := t.unclosedScopes
  child_range := by
    intro i n hn c hc
    rw [Array.getElem?_modify] at hn
    rw [Array.size_modify]
    split at hn
    · obtain ⟨m, hm, rfl⟩ := Option.map_eq_some_iff.1 hn
      exact t.child_range i m hm c hc
    · exact t.child_range i n hn c hc
  parent_lt := by
    intro i n hn p hp
    rw [Array.getElem?_modify] at hn
    split at hn
    · obtain ⟨m, hm, rfl⟩ := Option.map_eq_some_iff.1 hn
      exact t.parent_lt i m hm p hp
    · exact t.parent_lt i n hn p hp

end SyntaxTree

end GrowthOrder
