import GrowthOrder.Proofs.Time.Recursion
import Mathlib

/-!
# The calls of a function to itself, from above and from below

A function's calls to itself are collected by a walk down from the function that leaves out the
definitions inside it. The function around a call is found on the way up from the call. Both pick
the same nodes: the walk meets a recursive call of the function's name exactly if the way up from
the call ends at the function. So all recursive calls in one function are judged alike, and in a
tree that is read each of them is among the calls by which it is judged. The walk can also
be made by a loop over a stack, which finds the same calls in the same order.
-/
namespace GrowthOrder.SyntaxTree

variable {t : SyntaxTree} {f g id c p u v : Nat} {name callee : String}

/-- The node is a recursive call of this name, and the function around it is `f`. -/
def IsSelfCall (t : SyntaxTree) (f : Nat) (name : String) (v : Nat) : Prop :=
  t.kind v = .recursiveCall name ∧ t.enclosingFunction? v = some f

instance (t : SyntaxTree) (f : Nat) (name : String) : DecidablePred (t.IsSelfCall f name) :=
  fun _ => inferInstanceAs (Decidable (_ ∧ _))

/-! ## The function around a node -/

theorem lt_size_of_kind (h : t.kind u ≠ .unknown) : u < t.size := by
  apply Nat.lt_of_not_le
  intro hle
  exact h (kind_of_size_le hle)

theorem enclosingFunction?_of_isFunction (hf : (t.kind f).isFunction) :
    t.enclosingFunction? f = some f := by
  rw [enclosingFunction?_eq, if_pos hf]

theorem enclosingFunction?_of_mem_children (ht : t.Linked) (hc : c ∈ t.children id)
    (hk : (t.kind c).isFunction = false) :
    t.enclosingFunction? c = t.enclosingFunction? id := by
  have hp : t.parent c = some id := (ht.mem_children_iff id c).1 hc
  rw [enclosingFunction?_eq, hk, hp]
  rfl

/-- Below a definition the function around a node is that definition or one below it. -/
theorem le_of_enclosingFunction? (ht : t.Linked) (hf : (t.kind f).isFunction)
    (hv : v ∈ t.preorder f) (hg : t.enclosingFunction? v = some g) : f ≤ g := by
  have hsurrounds := enclosingFunction?_eq_some_iff.1 hg
  have hmem : f ∈ g :: t.lineage g := hsurrounds.nearest f ((mem_preorder_iff ht).1 hv) hf
  rcases List.mem_cons.1 hmem with heq | hline
  · omega
  · have hlt := mem_lineage_lt hline
    omega

/-- A call to itself stands below the function. -/
theorem IsSelfCall.mem_preorder (ht : t.Linked) (hv : t.IsSelfCall f name v) :
    v ∈ t.preorder f := by
  have hsurrounds := enclosingFunction?_eq_some_iff.1 hv.2
  exact (mem_preorder_iff ht).2 hsurrounds.mem

/-! ## The walk down -/

/-- From a node inside the function the walk collects the calls to itself in the order in which
they stand there. -/
theorem selfCallsAt_eq_filter (ht : t.Linked) (hp : t.enclosingFunction? p = some f)
    (hc : c ∈ t.children p) (name : String) :
    t.selfCallsAt name c = (t.preorder c).filter (t.IsSelfCall f name) := by
  induction c using t.induction generalizing p with
  | step c ih =>
    have hlt : p < c := (mem_children_range hc).1
    rw [selfCallsAt_eq]
    cases hk : (t.kind c).isFunction with
    | true =>
      -- whatever stands below another definition has a later function around it
      rw [if_pos rfl]
      symm
      apply List.filter_eq_nil_iff.2
      intro v hv hself
      have hcf : c ≤ f := le_of_enclosingFunction? ht hk hv (of_decide_eq_true hself).2
      have hsurrounds := enclosingFunction?_eq_some_iff.1 hp
      rcases List.mem_cons.1 hsurrounds.mem with hfp | hline
      · omega
      · have hfp := mem_lineage_lt hline
        omega
    | false =>
      have henclosing : t.enclosingFunction? c = some f :=
        (enclosingFunction?_of_mem_children ht hc hk).trans hp
      have hbelow : ∀ d ∈ t.children c,
          t.selfCallsAt name d = (t.preorder d).filter (t.IsSelfCall f name) :=
        fun d hd => ih d hd henclosing hd
      rw [if_neg Bool.false_ne_true, List.flatMap_congr hbelow, ← List.filter_flatMap, preorder_eq,
        List.filter_cons]
      by_cases hcall : t.kind c = .recursiveCall name
      · have hself : t.IsSelfCall f name c := ⟨hcall, henclosing⟩
        simp [hcall, hself]
      · have hself : ¬ t.IsSelfCall f name c := fun h => hcall h.1
        simp [hcall, hself]

/-- What stands below a node stands together in every walk that meets the node. -/
theorem preorder_infix (h : f ∈ t.preorder id) : t.preorder f <:+: t.preorder id := by
  induction id using t.induction with
  | step id ih =>
    rcases mem_preorder_cases h with heq | ⟨c, hc, hf⟩
    · rw [heq]
    · have hchild : t.preorder c <:+: (t.children id).flatMap t.preorder :=
        List.infix_of_mem_flatten (List.mem_map_of_mem hc)
      rw [preorder_eq t id]
      exact ((ih c hc hf).trans hchild).trans (List.suffix_cons _ _).isInfix

/-- Of a walk that meets a node only the part below the node matters to what stands only there. -/
theorem filter_preorder (ht : t.Linked) (hf : f ∈ t.preorder id) {q : Nat → Bool}
    (hq : ∀ v, q v = true → v ∈ t.preorder f) :
    (t.preorder id).filter q = (t.preorder f).filter q := by
  obtain ⟨before, after, heq⟩ := preorder_infix hf
  have hnodup := nodup_preorder ht id
  rw [← heq, List.nodup_append] at hnodup
  obtain ⟨hfront, -, hafter⟩ := hnodup
  obtain ⟨-, -, hbefore⟩ := List.nodup_append.1 hfront
  have hnone : before.filter q = [] := by
    apply List.filter_eq_nil_iff.2
    intro v hv hqv
    exact hbefore v hv v (hq v hqv) rfl
  have hnone' : after.filter q = [] := by
    apply List.filter_eq_nil_iff.2
    intro v hv hqv
    exact hafter v (List.mem_append_right _ (hq v hqv)) v hv rfl
  rw [← heq, List.filter_append, List.filter_append, hnone, hnone', List.nil_append,
    List.append_nil]

/-- The calls of a function to itself are the recursive calls of its name that have it around them,
as the walk through the whole tree meets them. -/
theorem selfCalls_eq_filter (ht : t.Linked) (hf : t.kind f = .functionDeclaration name) :
    t.selfCalls f name = (t.preorder 0).filter (t.IsSelfCall f name) := by
  have hfunction : t.enclosingFunction? f = some f :=
    enclosingFunction?_of_isFunction (by rw [hf]; rfl)
  have hself : ¬ t.IsSelfCall f name f := by
    intro h
    have hk := hf.symm.trans h.1
    cases hk
  have hbelow : t.selfCalls f name = (t.preorder f).filter (t.IsSelfCall f name) := by
    rw [selfCalls, List.flatMap_congr fun c hc => selfCallsAt_eq_filter ht hfunction hc name,
      ← List.filter_flatMap, preorder_eq, List.filter_cons]
    simp [hself]
  have hlt : f < t.size := lt_size_of_kind (by simp [hf])
  rw [hbelow, filter_preorder ht (mem_preorder_root ht hlt)]
  intro v hv
  exact (of_decide_eq_true hv).mem_preorder ht

theorem mem_selfCalls_iff (ht : t.Linked) (hf : t.kind f = .functionDeclaration name) :
    v ∈ t.selfCalls f name ↔ t.IsSelfCall f name v := by
  rw [selfCalls_eq_filter ht hf, List.mem_filter, decide_eq_true_iff]
  constructor
  · exact fun h => h.2
  · intro h
    exact ⟨mem_preorder_root ht (lt_size_of_kind (by simp [h.1])), h⟩

/-! ## The walk with a stack -/

/-- The walk as a loop over a stack that has its top at the end, with a bound on the turns. The
children of a node are pushed from the last to the first, so the first is met next. -/
def searchCalls (t : SyntaxTree) (name : String) : Nat → List Nat → List Nat → Option (List Nat)
  | 0, _, _ => none
  | turns + 1, stack, found =>
    match stack.getLast? with
    | none => some found
    | some id =>
      let pushed := stack.dropLast ++ (t.children id).reverse
      match t.kind id with
      | .functionDeclaration _ => t.searchCalls name turns stack.dropLast found
      | .recursiveCall callee =>
        t.searchCalls name turns pushed (if callee = name then found ++ [id] else found)
      | _ => t.searchCalls name turns pushed found

variable {turns : Nat} {pending found : List Nat}

/-- What one turn does. The nodes that are pending are those of the stack, the next one first. -/
theorem searchCalls_turn (t : SyntaxTree) (name : String) (turns id : Nat)
    (pending found : List Nat) :
    t.searchCalls name (turns + 1) (id :: pending).reverse found =
      if (t.kind id).isFunction then t.searchCalls name turns pending.reverse found
      else t.searchCalls name turns (t.children id ++ pending).reverse
        (found ++ if t.kind id = .recursiveCall name then [id] else []) := by
  rw [searchCalls, List.reverse_cons, List.getLast?_concat, List.dropLast_concat,
    List.reverse_append]
  dsimp only
  cases hk : t.kind id with
  | functionDeclaration callee => rfl
  | recursiveCall callee =>
    by_cases hname : callee = name <;> simp [hname, NodeKind.isFunction]
  | _ => simp [NodeKind.isFunction]

/-- With more turns than there are nodes at and below those that are pending, the loop ends and has
found what the walks from them collect. -/
theorem searchCalls_eq_some (h : (pending.flatMap t.preorder).length < turns) :
    t.searchCalls name turns pending.reverse found =
      some (found ++ pending.flatMap (t.selfCallsAt name)) := by
  induction turns generalizing pending found with
  | zero => cases h
  | succ turns ih =>
    cases pending with
    | nil => simp [searchCalls]
    | cons id pending =>
      rw [List.flatMap_cons, preorder_eq, List.length_append, List.length_cons] at h
      rw [searchCalls_turn, List.flatMap_cons, selfCallsAt_eq]
      cases hk : (t.kind id).isFunction with
      | true => exact ih (by omega)
      | false =>
        have hpushed : ((t.children id ++ pending).flatMap t.preorder).length < turns := by
          rw [List.flatMap_append, List.length_append]
          omega
        rw [if_neg Bool.false_ne_true, if_neg Bool.false_ne_true, ih hpushed,
          List.flatMap_append, List.append_assoc, List.append_assoc]

theorem length_preorder_le (ht : t.Linked) (hf : f < t.size) : (t.preorder f).length ≤ t.size := by
  have hpart := preorder_infix (mem_preorder_root ht hf)
  calc (t.preorder f).length
      ≤ (t.preorder 0).length := hpart.length_le
    _ = (List.range t.size).length := (perm_preorder_root ht (Nat.zero_lt_of_lt hf)).length_eq
    _ = t.size := List.length_range

/-- In a linked tree a loop with more turns than there are nodes finds the calls of a function to
itself in their order. -/
theorem searchCalls_eq_selfCalls (ht : t.Linked) (h : t.size < turns) :
    t.searchCalls name turns (t.children f).reverse [] = some (t.selfCalls f name) := by
  have hbelow : ((t.children f).flatMap t.preorder).length ≤ t.size := by
    rcases Nat.lt_or_ge f t.size with hf | hf
    · have hle := length_preorder_le ht hf
      rw [preorder_eq, List.length_cons] at hle
      omega
    · rw [children_of_size_le hf]
      exact Nat.zero_le _
  exact searchCalls_eq_some (by omega)

/-! ## The time of a recursive call -/

/-- A recursive call inside a function takes the time of the function's rule, whatever its own
name is. -/
theorem timeAt_of_recursiveCall (hu : t.kind u = .recursiveCall callee)
    (hf : t.enclosingFunction? u = some f) (hk : t.kind f = .functionDeclaration name) :
    t.timeAt u = recursionBound name ((t.selfCalls f name).map t.text) := by
  have htime : t.timeAt u = t.recursionTime u callee := by
    rw [timeAt, fold_eq, hu]
  rw [htime, recursionTime, hf]
  simp only [hk, NodeKind.functionName?, Option.getD_some]

/-- In every tree that a builder makes, the calls of a function to itself are the recursive calls of
its name that have it around them, from left to right and each once. Recursive calls with the same
function around them take the same time, and in a tree that is read every recursive call is among
the calls of the function around it to itself. -/
theorem selfCalls_agree :
    (∀ (edits : List Builder.Edit) (f : Nat) (name : String),
      (ofEdits edits).kind f = .functionDeclaration name →
      (ofEdits edits).selfCalls f name =
          ((ofEdits edits).preorder 0).filter ((ofEdits edits).IsSelfCall f name) ∧
        ((ofEdits edits).selfCalls f name).Nodup ∧
        ∀ v, v ∈ (ofEdits edits).selfCalls f name ↔ (ofEdits edits).IsSelfCall f name v) ∧
    (∀ (edits : List Builder.Edit) (u v f : Nat) (callee callee' : String),
      (ofEdits edits).kind u = .recursiveCall callee →
      (ofEdits edits).kind v = .recursiveCall callee' →
      (ofEdits edits).enclosingFunction? u = some f →
      (ofEdits edits).enclosingFunction? v = some f →
      (ofEdits edits).timeAt u = (ofEdits edits).timeAt v) ∧
    ∀ (d : Dialect) (tokens : List Token) (t : SyntaxTree), ofTokens d tokens = .ok t →
      ∀ u name, t.kind u = .recursiveCall name →
        ∃ f, t.enclosingFunction? u = some f ∧ t.kind f = .functionDeclaration name ∧
          u ∈ t.selfCalls f name ∧
          t.timeAt u = recursionBound name ((t.selfCalls f name).map t.text) := by
  refine ⟨?_, ?_, ?_⟩
  · intro edits f name hf
    have ht := linked_ofEdits edits
    have heq := selfCalls_eq_filter ht hf
    refine ⟨heq, ?_, fun v => mem_selfCalls_iff ht hf⟩
    rw [heq]
    exact (nodup_preorder ht 0).filter _
  · intro edits u v f callee callee' hu hv hfu hfv
    obtain ⟨name, hf⟩ := exists_name_of_enclosingFunction? hfu
    rw [timeAt_of_recursiveCall hu hfu hf, timeAt_of_recursiveCall hv hfv hf]
  · intro d tokens t h u name hu
    have ht := arranged_ofTokens h
    obtain ⟨f, hfu, hf⟩ := exists_of_enclosingName? (ht.enclosingName?_of_recursiveCall hu)
    have hmem : u ∈ t.selfCalls f name := (mem_selfCalls_iff ht.linked hf).2 ⟨hu, hfu⟩
    exact ⟨f, hfu, hf, hmem, timeAt_of_recursiveCall hu hfu hf⟩

/-- A function with another one of its name inside it, and a call that is put into a loop after a
later call; and a tree that is read, with a call in the arguments of a call. -/
theorem selfCalls_agree_nested :
    let edits : List Builder.Edit := [.enter (.functionDeclaration "f") none,
      .enter (.loop .whileLoop {}) none, .leave, .leaf (.recursiveCall "f") (some "f(n - 1)"),
      .enter (.functionDeclaration "f") none, .leaf (.recursiveCall "f") (some "f()"), .leave,
      .leave, .attach 2 (.recursiveCall "f") (some "f(n)")]
    (ofEdits edits).selfCalls 1 "f" = [6, 3] ∧
    ((ofEdits edits).preorder 0).filter ((ofEdits edits).IsSelfCall 1 "f") = [6, 3] ∧
    (ofEdits edits).timeAt 6 = (ofEdits edits).timeAt 3 ∧
    ∃ t, ofTokens { grammar := .cLike } (Grammar.tokenize .cLike
        "int f() \x7b g(f()); \x7d") = .ok t ∧
      ∃ f, t.enclosingFunction? 6 = some f ∧ t.kind f = .functionDeclaration "f" ∧
        6 ∈ t.selfCalls f "f" := by
  intro edits
  obtain ⟨hbuilt, htimes, hread⟩ := selfCalls_agree
  have hcalls : (ofEdits edits).selfCalls 1 "f" = [6, 3] := by cbv
  obtain ⟨hfilter, -, -⟩ := hbuilt edits 1 "f" (by cbv)
  have htime := htimes edits 6 3 1 "f" "f" (by cbv) (by cbv) (by cbv) (by cbv)
  have heval : (ofTokens { grammar := .cLike } (Grammar.tokenize .cLike
      "int f() \x7b g(f()); \x7d")).bind (fun t => .ok (t.kind 6)) =
        .ok (.recursiveCall "f") := by cbv
  obtain ⟨t, ht, hkind⟩ := exists_of_bind_ofTokens heval
  obtain ⟨f, hfunction, hf, hmem, -⟩ := hread _ _ t ht 6 "f" (Except.ok.inj hkind)
  exact ⟨hcalls, hfilter.symm.trans hcalls, htime, t, ht, f, hfunction, hf, hmem⟩

end GrowthOrder.SyntaxTree
