import GrowthOrder.Tree.Basic
/-!
Building a tree from the root down. A builder holds the tree so far and the scopes that are open;
new nodes go under the innermost one unless a parent is named. The root is always open: closing
it is a request without effect.
-/
namespace GrowthOrder

/-- Nodes to be put under one parent, from left to right, each with its own children. -/
inductive Forest
  | nil
  | cons (kind : NodeKind) (label : Option String) (children siblings : Forest)

namespace Forest

/-- A node without children, and nothing beside it. -/
def leaf (kind : NodeKind) (label : String) : Forest :=
  cons kind (some label) nil nil

/-- Expressions beside each other. -/
def expressions : List String → Forest
  | [] => nil
  | text :: texts => cons .expression (some text) nil (expressions texts)

end Forest

structure Builder where
  tree : SyntaxTree
  /-- The open scopes below the root, innermost first. -/
  scopes : List Nat

namespace Builder

/-- The tree that holds only the root. -/
def start : Builder where
  tree :=
    { nodes := #[{ kind := .program, label := some "program", parent := none, children := [] }]
      child_range := by
        intro i n hn c hc
        obtain ⟨_, rfl⟩ := Array.getElem?_eq_some_iff.1 hn
        simp at hc
      parent_lt := by
        intro i n hn p hp
        obtain ⟨_, rfl⟩ := Array.getElem?_eq_some_iff.1 hn
        simp at hp }
  scopes := []

/-- The innermost open scope. -/
def top (b : Builder) : Nat :=
  b.scopes.headD 0

/-- The number of open scopes, the root included. -/
def depth (b : Builder) : Nat :=
  b.scopes.length + 1

/-- Adds a node under a named parent; its number is the size of the tree before. -/
def attach (b : Builder) (parent : Nat) (kind : NodeKind) (label : Option String) : Builder :=
  { b with tree := b.tree.attach parent kind label }

/-- Adds a node under the innermost scope. -/
def leaf (b : Builder) (kind : NodeKind) (label : Option String) : Builder :=
  b.attach b.top kind label

/-- Adds a node under the innermost scope and makes it the innermost scope. -/
def enter (b : Builder) (kind : NodeKind) (label : Option String) : Builder :=
  { b.leaf kind label with scopes := b.tree.size :: b.scopes }

/-- Closes the innermost scope, unless it is the root. -/
def leave (b : Builder) : Option Nat × Builder :=
  match b.scopes with
  | [] => (none, b)
  | id :: outer => (some id, { b with scopes := outer })

def relabel (b : Builder) (id : Nat) (label : Option String) : Builder :=
  { b with tree := b.tree.amend id (fun kind => kind) fun _ => label }

/-- Sets the condition of a loop. -/
def setCondition (b : Builder) (id : Nat) (text : String) : Builder :=
  { b with tree := b.tree.amend id (NodeKind.withCondition text) fun label => label }

/-- Adds the nodes of a forest under a named parent, each before its children and these before
what stands to its right. -/
def graft (b : Builder) (parent : Nat) : Forest → Builder
  | .nil => b
  | .cons kind label children siblings =>
    ((b.attach parent kind label).graft b.tree.size children).graft parent siblings

/-- The finished tree, with the number of scopes left open. -/
def finish (b : Builder) : SyntaxTree :=
  { b.tree with unclosedScopes := b.scopes.length }

end Builder

end GrowthOrder
