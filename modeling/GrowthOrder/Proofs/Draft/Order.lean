import GrowthOrder.Estimate.Time
import GrowthOrder.Proofs.Draft.Placement
import GrowthOrder.Token.Scan
import Mathlib

/-!
# The order of the nodes of a tree that is read

The reader puts every new node below the node that it made last or below one of that node's
ancestors. So the numbers follow a depth-first walk from left to right, and what goes through the
nodes by their numbers goes through them as they stand in the tree: the lines of the outline, the
nodes of one tag, the times of the functions. Trees that are built by arbitrary requests do not have
this property.
-/
namespace GrowthOrder.SyntaxTree

variable {d : Dialect} {tokens : List Token} {t : SyntaxTree}

/-- An entry of the times belongs to a definition. -/
def IsEntry (t : SyntaxTree) (u : Nat) (entry : String × TimeBound) : Prop :=
  t.kind u = .functionDeclaration entry.1 ∧ entry.2 = t.timeAt u

/-- The times of the functions are those of the definitions, one for each, in the order of the
numbers. -/
theorem forall₂_functionTimes (t : SyntaxTree) :
    List.Forall₂ t.IsEntry ((List.range t.size).filter fun u => (t.kind u).isFunction)
      t.functionTimes := by
  rw [functionTimes]
  induction List.range t.size with
  | nil => exact .nil
  | cons u ids ih =>
    rw [List.filter_cons, List.filterMap_cons]
    cases hk : t.kind u with
    | functionDeclaration name => exact .cons ⟨hk, rfl⟩ ih
    | _ => exact ih

/-- The walk from the root of a tree that is read meets the nodes in the order of their numbers. So
do the lines of the outline and the nodes of a tag, and there is one time for each definition, as
the walk meets them. -/
theorem preorder_ofTokens (h : ofTokens d tokens = .ok t) :
    t.root? = some 0 ∧ t.preorder 0 = List.range t.size ∧
      t.outline = String.join ((List.range t.size).map t.outlineLine) ∧
      (∀ tag, t.withTag tag = (t.preorder 0).filter fun u => (t.kind u).tag == tag) ∧
      List.Forall₂ t.IsEntry ((t.preorder 0).filter fun u => (t.kind u).isFunction)
        t.functionTimes := by
  have ht := arranged_ofTokens h
  have horder := ht.preorder_root
  have houtline := outline_eq ht.linked ht.size_pos
  rw [horder] at houtline
  refine ⟨ht.root?_eq, horder, houtline, ?_, ?_⟩
  · intro tag
    rw [horder, withTag]
  · rw [horder]
    exact forall₂_functionTimes t

/-- Two functions, the first with a call in the arguments of a call. -/
theorem preorder_ofTokens_functions :
    ∃ t, ofTokens { grammar := .cLike } (Grammar.tokenize .cLike
        "int f() \x7b g(f()); \x7d int k() \x7b \x7d") = .ok t ∧
      t.preorder 0 = List.range 14 ∧ List.Forall₂ t.IsEntry [1, 9] t.functionTimes := by
  have heval : (ofTokens { grammar := .cLike } (Grammar.tokenize .cLike
      "int f() \x7b g(f()); \x7d int k() \x7b \x7d")).bind
        (fun t => .ok (t.size, (List.range t.size).filter fun u => (t.kind u).isFunction)) =
      .ok (14, [1, 9]) := by cbv
  obtain ⟨t, ht, hvalues⟩ := exists_of_bind_ofTokens heval
  obtain ⟨hsize, hfunctions⟩ := Prod.mk.inj (Except.ok.inj hvalues)
  obtain ⟨-, horder, -, -, htimes⟩ := preorder_ofTokens ht
  rw [horder, hfunctions] at htimes
  exact ⟨t, ht, hsize ▸ horder, htimes⟩

end GrowthOrder.SyntaxTree
