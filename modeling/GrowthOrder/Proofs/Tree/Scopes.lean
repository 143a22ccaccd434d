import GrowthOrder.Proofs.Tree.Outline
import Mathlib

/-!
# The table of nodes and the stack of open scopes

A builder holds its tree three times over: in the parents of the nodes, in their lists of children,
and, as far as scopes are open, in its stack. The three agree after every sequence of requests that
changes no kind but for the headers of loops: the stack is a line of nodes from the root inwards,
each the parent of the next, and every node but the root stands once among the children of its
parent and nowhere else.
-/
namespace GrowthOrder

/-- Changes the header of a loop; other kinds have none. -/
def NodeKind.withHeader (change : LoopHeader → LoopHeader) : NodeKind → NodeKind
  | loop form header => loop form (change header)
  | kind => kind

namespace SyntaxTree

variable {t : SyntaxTree} {id i : Nat} {f : NodeKind → NodeKind}
  {g : Option String → Option String}

theorem kind_amend_of_fixed (h : f (t.kind i) = t.kind i) :
    (t.amend id f g).kind i = t.kind i := by
  rw [kind] at h
  rw [kind, kind, getElem?_amend]
  cases hn : t.nodes[i]? with
  | none =>
    split <;> rfl
  | some n =>
    rw [hn] at h
    split
    · exact h
    · rfl

/-- The root is the program and the only node without a parent; every other node comes after its
parent, and stands once among the children of its parent and among no others. -/
structure Rooted (t : SyntaxTree) : Prop where
  size_pos : 0 < t.size
  kind_root : t.kind 0 = .program
  parent_eq_none_iff : ∀ i < t.size, t.parent i = none ↔ i = 0
  child_once : ∀ i < t.size, i ≠ 0 → ∃ p < i, t.parent i = some p ∧ (t.children p).count i = 1 ∧
    ∀ q, i ∈ t.children q → q = p
  increasing : ∀ i, (t.children i).Pairwise (· < ·)

theorem rooted_of_linked (ht : t.Linked) (hs : 0 < t.size) (hk : t.kind 0 = .program) :
    t.Rooted := by
  refine ⟨hs, hk, ?_, ?_, ht.increasing⟩
  · intro i hi
    constructor
    · intro hp
      rcases Nat.eq_zero_or_pos i with h0 | hpos
      · exact h0
      · obtain ⟨p, hp'⟩ := ht.parent_of_pos i hpos hi
        rw [hp] at hp'
        cases hp'
    · rintro rfl
      exact t.parent_root
  · intro i hi hne
    obtain ⟨p, hp⟩ := ht.parent_of_pos i (by omega) hi
    have hmem : i ∈ t.children p := (ht.mem_children_iff p i).2 hp
    have hnodup : (t.children p).Nodup := (ht.increasing p).imp Nat.ne_of_lt
    refine ⟨p, parent_eq_some_lt hp, hp, List.count_eq_one_of_mem hnodup hmem, ?_⟩
    intro q hq
    have hq' := (ht.mem_children_iff q i).1 hq
    exact Option.some.inj (hq'.symm.trans hp)

end SyntaxTree

namespace Builder

/-- The open scopes from the root inwards. -/
def stack (b : Builder) : List Nat :=
  0 :: b.scopes.reverse

/-- Requests that change kinds only in the headers of loops. -/
def Edit.HeadersOnly : Edit → Prop
  | recast _ change => ∃ f, change = NodeKind.withHeader f
  | _ => True

/-- The stack begins at the root, ends with the innermost scope, and each entry is the parent of
the next. -/
structure Stacked (b : Builder) : Prop where
  head : b.stack.head? = some 0
  last : b.stack.getLast? = some b.top
  length : b.stack.length = b.depth
  chain : b.stack.IsChain fun p c => b.finish.parent c = some p

/-- What every request keeps. The scopes are listed innermost first. -/
structure Nested (b : Builder) : Prop where
  sound : b.Sound
  kind_root : b.tree.kind 0 = .program
  chain : (b.scopes ++ [0]).IsChain fun c p => b.tree.parent c = some p

variable {b : Builder}

theorem nested_start : start.Nested :=
  ⟨sound_start, rfl, List.isChain_singleton _⟩

theorem nested_attach (h : b.Nested) {p : Nat} (hp : p < b.tree.size) (k : NodeKind)
    (l : Option String) : (b.attach p k l).Nested := by
  refine ⟨sound_attach h.sound hp k l, ?_, ?_⟩
  · have hroot := h.sound.root
    rw [attach, SyntaxTree.kind_attach hp, if_neg (by omega)]
    exact h.kind_root
  · refine h.chain.imp fun c q hc => ?_
    have hlt := SyntaxTree.parent_lt_size hc
    rw [attach, SyntaxTree.parent_attach hp, if_neg (by omega)]
    exact hc

theorem head?_scopes (b : Builder) : (b.scopes ++ [0]).head? = some b.top := by
  rw [top]
  cases b.scopes <;> rfl

theorem nested_enter (h : b.Nested) (k : NodeKind) (l : Option String) : (b.enter k l).Nested := by
  have htop := top_lt h.sound
  have ha := nested_attach h htop k l
  refine ⟨sound_enter h.sound k l, ha.kind_root, List.isChain_cons.2 ⟨?_, ha.chain⟩⟩
  -- the new scope stands below the one that was innermost before
  intro q hq
  have hq' : some b.top = some q := (head?_scopes b).symm.trans hq
  have hparent : (b.attach b.top k l).tree.parent b.tree.size = some b.top := by
    rw [attach, SyntaxTree.parent_attach htop, if_pos rfl]
  exact hparent.trans hq'

theorem nested_leave (h : b.Nested) : b.leave.2.Nested := by
  have hchain := h.chain
  refine ⟨sound_leave h.sound, ?_, ?_⟩
  · rw [leave_eq]
    exact h.kind_root
  · rw [leave_eq]
    cases hs : b.scopes with
    | nil => exact List.isChain_singleton _
    | cons id outer =>
      rw [hs] at hchain
      exact hchain.tail

theorem nested_amend (h : b.Nested) (id : Nat) {f : NodeKind → NodeKind}
    (hf : f .program = .program) (g : Option String → Option String) :
    Nested { b with tree := b.tree.amend id f g } := by
  refine ⟨sound_amend h.sound id f g, ?_, ?_⟩
  · have hfixed : f (b.tree.kind 0) = b.tree.kind 0 := by rw [h.kind_root, hf]
    exact (SyntaxTree.kind_amend_of_fixed hfixed).trans h.kind_root
  · refine h.chain.imp fun c p hc => ?_
    exact (SyntaxTree.parent_amend c).trans hc

theorem nested_apply (h : b.Nested) {e : Edit} (he : e.HeadersOnly) : (b.apply e).Nested := by
  cases e with
  | enter kind label => exact nested_enter h kind label
  | leaf kind label => exact nested_attach h (top_lt h.sound) kind label
  | attach parent kind label =>
    by_cases hp : parent < b.tree.size
    · exact nested_attach h hp kind label
    · rw [apply, attach_of_size_le hp]
      exact h
  | leave => exact nested_leave h
  | relabel id label => exact nested_amend h id rfl _
  | recast id change =>
    obtain ⟨f, rfl⟩ := he
    exact nested_amend h id rfl _

theorem nested_run (h : b.Nested) {edits : List Edit} (he : ∀ e ∈ edits, e.HeadersOnly) :
    (b.run edits).Nested := by
  induction edits generalizing b with
  | nil => exact h
  | cons e edits ih =>
    have hstep := nested_apply h (he e List.mem_cons_self)
    exact ih hstep fun e' he' => he e' (List.mem_cons_of_mem _ he')

theorem stack_eq_reverse (b : Builder) : b.stack = (b.scopes ++ [0]).reverse := by
  rw [stack, List.reverse_append]
  rfl

theorem getLast?_stack (b : Builder) : b.stack.getLast? = some b.top := by
  rw [stack_eq_reverse, List.getLast?_reverse, head?_scopes]

theorem stacked_of_nested (h : b.Nested) : b.Stacked where
  head := rfl
  last := getLast?_stack b
  length := by rw [stack, List.length_cons, List.length_reverse, depth]
  chain := by
    rw [stack_eq_reverse, List.isChain_reverse]
    exact h.chain

end Builder

namespace SyntaxTree

open Builder (start Edit)

/-- The tree and the stack after any sequence of requests that changes kinds only in the headers of
loops. The walk of the outline meets every node once, and the way up from any node ends and finds
the nearest definition. -/
theorem rooted_ofEdits (edits : List Edit) (h : ∀ e ∈ edits, e.HeadersOnly) :
    (ofEdits edits).Rooted ∧ (start.run edits).Stacked ∧
      (ofEdits edits).unclosedScopes = (start.run edits).stack.length - 1 ∧
      ((ofEdits edits).preorder 0).Perm (List.range (ofEdits edits).size) ∧
      (ofEdits edits).outline =
        String.join (((ofEdits edits).preorder 0).map (ofEdits edits).outlineLine) ∧
      ∀ u < (ofEdits edits).size,
        (fun w => w.bind (ofEdits edits).parent)^[u + 1] (some u) = none ∧
        (((ofEdits edits).enclosingFunction? u).isSome ↔
          ∃ v ∈ u :: (ofEdits edits).lineage u, ((ofEdits edits).kind v).isFunction) ∧
        ∀ f, (ofEdits edits).enclosingFunction? u = some f ↔ (ofEdits edits).Surrounds f u := by
  have hnested := Builder.nested_run Builder.nested_start h
  have hlinked := linked_ofEdits edits
  have hsize : 0 < (ofEdits edits).size := hnested.sound.root
  have hstack := Builder.stacked_of_nested hnested
  refine ⟨rooted_of_linked hlinked hsize hnested.kind_root, hstack, ?_,
    perm_preorder_root hlinked hsize, outline_eq hlinked hsize, ?_⟩
  · rw [hstack.length]
    rfl
  · intro u _
    exact ⟨iterate_parent _ (Nat.lt_succ_self u), enclosingFunction?_isSome,
      fun f => enclosingFunction?_eq_some_iff⟩

/-- A call that is put into a loop after the loop and its function were left, so that the walk does
not follow the numbers; the root stays open. -/
theorem rooted_ofEdits_late_call :
    let edits : List Edit := [.enter (.functionDeclaration "f") none,
      .enter (.loop .whileLoop {}) none, .leave, .leave, .leave, .enter .conditional none,
      .attach 2 (.recursiveCall "f") none,
      .recast 2 (NodeKind.withHeader fun header => { header with condition := some "n" })]
    (∀ e ∈ edits, e.HeadersOnly) ∧ (ofEdits edits).Rooted ∧ (start.run edits).stack = [0, 3] ∧
      (ofEdits edits).unclosedScopes = 1 ∧ (ofEdits edits).preorder 0 = [0, 1, 2, 4, 3] ∧
      (ofEdits edits).Surrounds 1 4 := by
  intro edits
  have h : ∀ e ∈ edits, e.HeadersOnly := by simp [edits, Edit.HeadersOnly]
  have hwalk : (ofEdits edits).preorder 0 = [0, 1, 2, 4, 3] := by cbv
  have hfunction : (ofEdits edits).enclosingFunction? 4 = some 1 := by cbv
  obtain ⟨hrooted, -, hscopes, -, -, hup⟩ := rooted_ofEdits edits h
  obtain ⟨-, -, hnearest⟩ := hup 4 (by decide)
  exact ⟨h, hrooted, rfl, hscopes, hwalk, (hnearest 1).1 hfunction⟩

end SyntaxTree

end GrowthOrder
