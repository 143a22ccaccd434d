import GrowthOrder.Proofs.Space.Allocations
import GrowthOrder.Proofs.Time.Calls
import GrowthOrder.Proofs.Tree.Nesting

/-!
# The time of a function that calls itself

All recursive calls of one function have one cost, which its rule gives by the texts of these
calls. The cost of a forest is computed from its kinds and this cost. Where a tree is made of a
single function, its time is that of the cost of what is inside the function, and a recursive call
makes its memory linear.
-/
namespace GrowthOrder

/-- What a node of this kind costs, by the cost of a recursive call and the cost of what is below
the node. -/
def NodeKind.cost (self below : Cost) : NodeKind → Cost
  | program | block | conditional | functionDeclaration _ => below
  | loop _ _ => below.raise 1
  | recursiveCall _ => self
  | functionCall name => .unknown (.call name)
  | _ => .power 0

namespace Forest

/-- The cost of all nodes, by the cost of a recursive call. -/
def cost (self : Cost) : Forest → Cost
  | nil => .power 0
  | cons kind _ children siblings =>
    (kind.cost self (children.cost self)).join (siblings.cost self)

/-- The texts of the calls of a function to itself, apart from functions inside it. -/
def selfCalls (name : String) : Forest → List String
  | nil => []
  | cons kind label children siblings =>
    (if kind.isFunction then []
      else (if kind = .recursiveCall name then [label.getD ""] else []) ++
        children.selfCalls name) ++ siblings.selfCalls name

theorem cost_append (self : Cost) (F G : Forest) :
    (F ++ G).cost self = (F.cost self).join (G.cost self) := by
  induction F with
  | nil => exact (Cost.power_zero_join _).symm
  | cons k l ch sib _ ih => rw [cons_append, cost, cost, ih, Cost.join_assoc]

theorem cost_expressions (self : Cost) (texts : List String) :
    (expressions texts).cost self = .power 0 := by
  induction texts with
  | nil => rfl
  | cons text texts ih =>
    rw [expressions, cost, ih]
    rfl

theorem selfCalls_append (name : String) (F G : Forest) :
    (F ++ G).selfCalls name = F.selfCalls name ++ G.selfCalls name := by
  induction F with
  | nil => rfl
  | cons k l ch sib _ ih => rw [cons_append, selfCalls, selfCalls, ih, List.append_assoc]

theorem selfCalls_expressions (name : String) (texts : List String) :
    (expressions texts).selfCalls name = [] := by
  induction texts with
  | nil => rfl
  | cons text texts ih =>
    rw [expressions, selfCalls, ih]
    rfl

end Forest

namespace SyntaxTree

variable {t t' : SyntaxTree} {F : Forest} {self below c : Cost} {name : String} {id u p n : Nat}

/-! ## Trees and forests -/

theorem timeAt_eq_cost
    (hself : ∀ callee, t.kind id = .recursiveCall callee → t.recursionTime id callee = self.time)
    (hbelow : ((t.children id).map t.timeAt).foldl TimeBound.dominant .constant = below.time) :
    t.timeAt id = ((t.kind id).cost self below).time := by
  rw [timeAt, fold_eq, List.map_map]
  cases hk : t.kind id with
  | program | block | conditional | functionDeclaration => exact hbelow
  | loop form header =>
    rw [NodeKind.cost, Cost.time_raise_one, ← hbelow]
    rfl
  | recursiveCall callee => exact hself callee hk
  | functionCall callee => rfl
  | _ => rfl

/-- The nodes of a forest take the time of its cost. -/
theorem foldl_timeAt_shows (h : t'.Shows p n F) (halike : t.bare = t'.bare)
    (hself : ∀ u callee, t.kind u = .recursiveCall callee → t.recursionTime u callee = self.time) :
    ((F.roots n).map t.timeAt).foldl TimeBound.dominant c.time = (c.join (F.cost self)).time := by
  induction F generalizing p n c with
  | nil => exact congrArg Cost.time (Cost.join_power_zero c).symm
  | cons k l ch sib ihc ihs =>
    obtain ⟨hn, hc, hs⟩ := h
    have hkind : (t.kind n).cost self (ch.cost self) = k.cost self (ch.cost self) := by
      have hbare : (t.kind n).bare = k.bare := by rw [kind_alike halike, kind_of_node hn]
      rw [← NodeKind.apply_bare (NodeKind.cost self (ch.cost self)) fun _ => rfl, hbare,
        NodeKind.apply_bare (NodeKind.cost self (ch.cost self)) fun _ => rfl]
    have hbelow : ((t.children n).map t.timeAt).foldl TimeBound.dominant .constant =
        (ch.cost self).time := by
      have hch := ihc (c := .power 0) hc
      rw [Cost.power_zero_join] at hch
      rw [children_alike halike, children_of_node hn]
      exact hch
    rw [Forest.roots, List.map_cons, List.foldl_cons, timeAt_eq_cost (hself n) hbelow, hkind,
      ← Cost.time_join, ihs hs, Forest.cost, Cost.join_assoc]

theorem selfCallsAt_eq (t : SyntaxTree) (name : String) (id : Nat) : t.selfCallsAt name id =
    if (t.kind id).isFunction then []
    else (if t.kind id = .recursiveCall name then [id] else []) ++
      (t.children id).flatMap (t.selfCallsAt name) := by
  rw [selfCallsAt, fold_eq, List.flatMap_map]
  cases hk : t.kind id with
  | functionDeclaration callee => rfl
  | recursiveCall callee =>
    simp only [NodeKind.recursiveCall.injEq]
    rfl
  | _ => rfl

theorem kind_of_mem_selfCallsAt (h : u ∈ t.selfCallsAt name id) :
    t.kind u = .recursiveCall name := by
  induction id using t.induction with
  | step id ih =>
    rw [selfCallsAt_eq] at h
    split at h
    · cases h
    · rcases List.mem_append.1 h with h | h
      · split at h
        · next hk => rwa [List.mem_singleton.1 h]
        · cases h
      · obtain ⟨c, hc, hu⟩ := List.mem_flatMap.1 h
        exact ih c hc hu

/-- The calls that a walk finds have the texts of the forest. -/
theorem map_text_selfCallsAt_shows (h : t'.Shows p n F) (halike : t.bare = t'.bare) :
    ((F.roots n).flatMap (t.selfCallsAt name)).map t.text = F.selfCalls name := by
  induction F generalizing p n with
  | nil => rfl
  | cons k l ch sib ihc ihs =>
    obtain ⟨hn, hc, hs⟩ := h
    have hbare : (t.kind n).bare = k.bare := by rw [kind_alike halike, kind_of_node hn]
    have hfunction : (t.kind n).isFunction = k.isFunction := by
      rw [← NodeKind.isFunction_bare, hbare, NodeKind.isFunction_bare]
    have hcall : t.kind n = .recursiveCall name ↔ k = .recursiveCall name := by
      rw [← NodeKind.bare_eq_iff rfl, hbare, NodeKind.bare_eq_iff rfl]
    have htext : t.text n = l.getD "" := by rw [text, label_alike halike, label_of_node hn]
    have hchildren : t.children n = ch.roots (n + 1) := by
      rw [children_alike halike, children_of_node hn]
    rw [Forest.roots, List.flatMap_cons, List.map_append, ihs hs, selfCallsAt_eq, hfunction,
      hchildren, Forest.selfCalls]
    congr 1
    split
    · rfl
    · rw [List.map_append, ihc hc]
      simp only [hcall]
      split
      · rw [List.map_singleton, htext]
      · rfl

/-! ## A single function -/

theorem recursionBound_of_two_le {name : String} {texts : List String} (h : 2 ≤ texts.length) :
    recursionBound name texts = .known .exponential := by
  match texts, h with
  | _ :: _ :: _, _ => rfl

/-- The tree is made of one function, up to the conditions of do-loops. -/
structure Single (t : SyntaxTree) (name : String) (F : Forest) : Prop where
  arranged : t.Arranged
  grown : ∃ t' : SyntaxTree, t.bare = t'.bare ∧
    t'.Grown (.cons (.functionDeclaration name) (some name) F .nil)
  no_function : F.collect (Option.guard NodeKind.isFunction) = []

namespace Single

theorem eq_one (h : t.Single name F) (hu : (t.kind u).isFunction) : u = 1 := by
  obtain ⟨t', halike, hgrown⟩ := h.grown
  rw [← NodeKind.isFunction_bare, kind_alike halike, NodeKind.isFunction_bare] at hu
  have hsize : t'.size = F.size + 2 := by
    rw [hgrown.size_eq, Forest.size, Forest.size]
    omega
  have hlt : u < t'.size := by
    refine Nat.lt_of_not_le fun hle => ?_
    rw [kind_of_size_le hle] at hu
    cases hu
  have hpos : u ≠ 0 := by
    rintro rfl
    rw [hgrown.kind_root] at hu
    cases hu
  by_contra hne
  have hmem : u ∈ List.range' 2 F.size := List.mem_range'_1.2 (by omega)
  have hnone := filterMap_range'_shows (Option.guard NodeKind.isFunction) hgrown.shows.2.1
  rw [h.no_function] at hnone
  have hguard := List.filterMap_eq_nil_iff.1 hnone u hmem
  rw [Option.guard, if_pos hu] at hguard
  cases hguard

theorem kind_one (h : t.Single name F) : t.kind 1 = .functionDeclaration name := by
  obtain ⟨t', halike, hgrown⟩ := h.grown
  have hk := kind_alike halike 1
  rw [kind_of_node hgrown.shows.1] at hk
  exact (NodeKind.bare_eq_iff rfl).1 hk

theorem children_one (h : t.Single name F) : t.children 1 = F.roots 2 := by
  obtain ⟨t', halike, hgrown⟩ := h.grown
  rw [children_alike halike, children_of_node hgrown.shows.1]

/-- Every recursive call is a call of the function to itself. -/
theorem recursionTime_eq (h : t.Single name F) {callee : String}
    (hu : t.kind u = .recursiveCall callee) :
    t.recursionTime u callee = recursionBound name (F.selfCalls name) := by
  obtain ⟨t', halike, hgrown⟩ := h.grown
  obtain ⟨f, hf, hk⟩ := exists_of_enclosingName? (h.arranged.enclosingName?_of_recursiveCall hu)
  obtain rfl := h.eq_one (by rw [hk]; rfl)
  rw [recursionTime, hf]
  simp only [h.kind_one]
  rw [NodeKind.functionName?, Option.getD_some, selfCalls, h.children_one,
    map_text_selfCallsAt_shows hgrown.shows.2.1 halike]

theorem time_eq (h : t.Single name F) (hself : self.time = recursionBound name (F.selfCalls name)) :
    t.time = .ok (F.cost self).time := by
  obtain ⟨t', halike, hgrown⟩ := h.grown
  have hcalls : ∀ u callee, t.kind u = .recursiveCall callee →
      t.recursionTime u callee = self.time := by
    intro u callee hu
    rw [h.recursionTime_eq hu, hself]
  have hroot : ((t.children 0).map t.timeAt).foldl TimeBound.dominant .constant =
      (F.cost self).time := by
    have hfold := foldl_timeAt_shows (c := .power 0) hgrown.shows halike hcalls
    rw [Cost.power_zero_join, Forest.cost, Forest.cost, Cost.join_power_zero] at hfold
    rw [children_alike halike, hgrown.children_root]
    exact hfold
  rw [SyntaxTree.time_eq h.arranged, timeAt_eq_cost (hcalls 0) hroot, h.arranged.kind_root]
  rfl

/-- A function that calls itself takes linear memory. -/
theorem exists_space (h : t.Single name F) (hcalls : F.selfCalls name ≠ []) :
    ∃ s, t.space = .ok s ∧ s.recursive = true ∧ s.bound = .linear := by
  obtain ⟨t', halike, hgrown⟩ := h.grown
  rw [← map_text_selfCallsAt_shows hgrown.shows.2.1 halike] at hcalls
  obtain ⟨text, htext⟩ := List.exists_mem_of_ne_nil _ hcalls
  obtain ⟨u, hu, -⟩ := List.mem_map.1 htext
  obtain ⟨c, -, hu⟩ := List.mem_flatMap.1 hu
  have hk := kind_of_mem_selfCallsAt hu
  have hreenters : t.Reenters :=
    ⟨u, name, by rw [hk]; rfl, h.arranged.exists_function_of_recursiveCall hk⟩
  have hrecursive := (SpaceBound.recursive_ofAllocations _).2
    ((reentry_mem_root_iff h.arranged).2 hreenters)
  exact ⟨_, space_eq h.arranged, hrecursive, if_pos hrecursive⟩

end Single

end SyntaxTree

end GrowthOrder
