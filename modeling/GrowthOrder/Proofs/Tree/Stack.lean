import GrowthOrder.Proofs.Tree.Scopes

/-!
# Building with the root on the stack

A builder lists the open scopes without the root, so it cannot close the root. A builder that keeps
the root at the bottom of its stack has to look at the length of the stack before it closes a scope.
After every sequence of requests the two have the same tree and the same scopes, and every request
to close a scope gets the same answer. So the root is never closed, and the scopes that are left
open can be counted without it.
-/
namespace GrowthOrder

/-- The stack without its last entry, unless this is the only one. -/
def Indexed.pop (stack : List Nat) : List Nat :=
  if 1 < stack.length then stack.dropLast else stack

theorem Indexed.pop_push (stack : List Nat) (id : Nat) (h : stack ≠ []) :
    pop (stack ++ [id]) = stack := by
  have hpos := List.length_pos_iff.2 h
  rw [pop, if_pos (by rw [List.length_append, List.length_singleton]; omega),
    List.dropLast_concat]

/-- A builder that keeps all open scopes, the root included. -/
structure StackBuilder where
  tree : SyntaxTree
  /-- The open scopes from the root inwards. -/
  stack : List Nat

namespace StackBuilder

def start : StackBuilder where
  tree := Builder.start.tree
  stack := [0]

def top (b : StackBuilder) : Nat :=
  b.stack.getLast?.getD 0

def attach (b : StackBuilder) (parent : Nat) (kind : NodeKind) (label : Option String) :
    StackBuilder :=
  { b with tree := b.tree.attach parent kind label }

def enter (b : StackBuilder) (kind : NodeKind) (label : Option String) : StackBuilder :=
  { b.attach b.top kind label with stack := b.stack ++ [b.tree.size] }

/-- Closes the innermost scope, unless it is the last one on the stack. -/
def leave (b : StackBuilder) : Option Nat × StackBuilder :=
  (if 1 < b.stack.length then b.stack.getLast? else none, { b with stack := Indexed.pop b.stack })

def apply (b : StackBuilder) : Builder.Edit → StackBuilder
  | .enter kind label => b.enter kind label
  | .leaf kind label => b.attach b.top kind label
  | .attach parent kind label => b.attach parent kind label
  | .leave => b.leave.2
  | .relabel id label => { b with tree := b.tree.amend id (fun kind => kind) fun _ => label }
  | .recast id change => { b with tree := b.tree.amend id change fun label => label }

def run (b : StackBuilder) (edits : List Builder.Edit) : StackBuilder :=
  edits.foldl apply b

def finish (b : StackBuilder) : SyntaxTree :=
  { b.tree with unclosedScopes := b.stack.length - 1 }

end StackBuilder

namespace Builder

/-- The builder with the root put below the scopes. -/
def withRoot (b : Builder) : StackBuilder :=
  ⟨b.tree, b.stack⟩

theorem top_withRoot (b : Builder) : b.withRoot.top = b.top := by
  rw [StackBuilder.top, withRoot, getLast?_stack]
  rfl

theorem stack_enter (b : Builder) (kind : NodeKind) (label : Option String) :
    (b.enter kind label).stack = b.stack ++ [b.tree.size] := by
  rw [stack, stack, enter, List.reverse_cons, List.cons_append]

theorem stack_leave (b : Builder) : b.leave.2.stack = Indexed.pop b.stack := by
  rw [stack, leave_eq, stack]
  cases b.scopes with
  | nil => rfl
  | cons id outer =>
    rw [List.reverse_cons, ← List.cons_append, Indexed.pop_push _ _ (List.cons_ne_nil _ _)]
    rfl

theorem leave_withRoot (b : Builder) : b.withRoot.leave = (b.leave.1, b.leave.2.withRoot) := by
  have hanswer : (if 1 < b.stack.length then b.stack.getLast? else none) = b.leave.1 := by
    rw [leave_eq, stack]
    cases b.scopes with
    | nil => rfl
    | cons id outer =>
      rw [if_pos (by simp), List.reverse_cons, ← List.cons_append, List.getLast?_concat]
      rfl
  rw [StackBuilder.leave, withRoot, hanswer, withRoot, stack_leave, leave_eq]

/-- One request. Closing and opening scopes change both stacks alike, and the rest goes under the
same nodes. -/
theorem apply_withRoot (b : Builder) (e : Edit) : b.withRoot.apply e = (b.apply e).withRoot := by
  cases e with
  | enter kind label =>
    rw [StackBuilder.apply, StackBuilder.enter, top_withRoot, apply, withRoot, withRoot,
      stack_enter]
    rfl
  | leaf kind label =>
    rw [StackBuilder.apply, top_withRoot]
    rfl
  | attach parent kind label => rfl
  | leave => rw [StackBuilder.apply, leave_withRoot, apply]
  | relabel id label => rfl
  | recast id change => rfl

theorem run_withRoot (b : Builder) (edits : List Edit) :
    b.withRoot.run edits = (b.run edits).withRoot := by
  induction edits generalizing b with
  | nil => rfl
  | cons e edits ih =>
    rw [StackBuilder.run, List.foldl_cons, apply_withRoot]
    exact ih (b.apply e)

end Builder

namespace StackBuilder

/-- Both builders have the same tree and the same scopes after every sequence of requests. -/
theorem run_start (edits : List Builder.Edit) :
    start.run edits = (Builder.start.run edits).withRoot :=
  Builder.run_withRoot Builder.start edits

/-- The root is never closed. -/
theorem head?_stack_run (edits : List Builder.Edit) :
    (start.run edits).stack.head? = some 0 := by
  rw [run_start]
  rfl

theorem finish_run (edits : List Builder.Edit) :
    (start.run edits).finish = SyntaxTree.ofEdits edits := by
  have hlength (b : Builder) : b.stack.length - 1 = b.scopes.length := by
    rw [Builder.stack, List.length_cons, List.length_reverse, Nat.add_sub_cancel]
  rw [run_start, finish, Builder.withRoot, hlength]
  rfl

end StackBuilder

end GrowthOrder
