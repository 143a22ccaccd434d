import GrowthOrder.Estimate.Time
import GrowthOrder.Proofs.Time.Cost
import GrowthOrder.Proofs.Tree.Descent

/-!
# The time of a tree as a maximum over paths

A node is reached from another one along a path on which every node but the last is a scope. The
time of a node is that of the first call without a known cost that is reached; if there is none, it
is exponential if an exponential call is reached, and else the power with the greatest number of
loops on a path, one more where the path ends in a linear call, cut off at the third.
-/
namespace GrowthOrder.SyntaxTree

/-- The nodes from one node down to another, both included, through scopes only. -/
inductive Path (t : SyntaxTree) (id : Nat) : Nat → List Nat → Prop
  | here : Path t id id [id]
  | down {p u : Nat} {nodes : List Nat} : Path t id p nodes → (t.kind p).isScope →
      t.parent u = some p → Path t id u (nodes ++ [u])

def Reaches (t : SyntaxTree) (id u : Nat) : Prop :=
  ∃ nodes, t.Path id u nodes

/-- The number of loops among nodes. -/
def loopsOn (t : SyntaxTree) (nodes : List Nat) : Nat :=
  nodes.countP fun u => (t.kind u).isLoop

/-- Why the cost of a node of its own is not known: it calls another function, or it is a
recursive call that no rule covers. -/
def obstacle? (t : SyntaxTree) (u : Nat) : Option Unresolved :=
  match t.kind u with
  | .functionCall name => some (.call name)
  | .recursiveCall name => (t.recursionTime u name).reason?
  | _ => none

/-- The bound of a recursive call that a rule covers. -/
def selfCallBound? (t : SyntaxTree) (u : Nat) : Option Bound :=
  match t.kind u with
  | .recursiveCall name => (t.recursionTime u name).bound?
  | _ => none

/-- The degree that a node adds to the loops around it. -/
def ownDegree (t : SyntaxTree) (u : Nat) : Nat :=
  if t.selfCallBound? u = some .linear then 1 else 0

/-- A call without a known cost, for this reason, is reached, and a depth-first walk meets no other
one that is reached before it. -/
def FirstObstacle (t : SyntaxTree) (id : Nat) (reason : Unresolved) : Prop :=
  ∃ before u after, t.preorder id = before ++ u :: after ∧ t.Reaches id u ∧
    t.obstacle? u = some reason ∧ ∀ v ∈ before, t.Reaches id v → t.obstacle? v = none

/-- The degrees of the paths from a node. -/
def pathDegrees (t : SyntaxTree) (id : Nat) : Set Nat :=
  {n | ∃ u nodes, t.Path id u nodes ∧ n = t.loopsOn nodes + t.ownDegree u}

variable {t : SyntaxTree} {c id u : Nat} {nodes : List Nat}

/-! ## Paths -/

theorem path_cons (hs : (t.kind id).isScope) (hc : t.parent c = some id)
    (h : t.Path c u nodes) : t.Path id u (id :: nodes) := by
  induction h with
  | here => exact .down .here hs hc
  | down _ hp hu ih => exact .down ih hp hu

/-- A path is a single node, or goes on from a child of its first node. -/
theorem path_cases (h : t.Path id u nodes) : (u = id ∧ nodes = [id]) ∨
    ((t.kind id).isScope ∧ ∃ c rest, t.parent c = some id ∧ t.Path c u rest ∧
      nodes = id :: rest) := by
  induction h with
  | here => exact .inl ⟨rfl, rfl⟩
  | @down p u nodes hpath hs hu ih =>
    rcases ih with ⟨rfl, rfl⟩ | ⟨hid, c, rest, hc, hrest, rfl⟩
    · exact .inr ⟨hs, u, [u], hu, .here, rfl⟩
    · exact .inr ⟨hid, c, rest ++ [u], hc, .down hrest hs hu, rfl⟩

theorem reaches_self : t.Reaches id id :=
  ⟨[id], .here⟩

theorem reaches_child (hs : (t.kind id).isScope) (hc : t.parent c = some id)
    (h : t.Reaches c u) : t.Reaches id u := by
  obtain ⟨nodes, h⟩ := h
  exact ⟨id :: nodes, path_cons hs hc h⟩

theorem mem_preorder_of_reaches (ht : t.Linked) (h : t.Reaches id u) : u ∈ t.preorder id := by
  obtain ⟨nodes, h⟩ := h
  induction h with
  | here => exact mem_preorder_self
  | down _ _ hu ih => exact mem_preorder_of_parent ht hu ih

/-- Below a child, what is reached from the node is what is reached from the child. -/
theorem reaches_iff_child (ht : t.Linked) (hc : c ∈ t.children id) (hu : u ∈ t.preorder c) :
    t.Reaches id u ↔ (t.kind id).isScope ∧ t.Reaches c u := by
  constructor
  · rintro ⟨nodes, h⟩
    rcases path_cases h with ⟨rfl, -⟩ | ⟨hs, d, rest, hd, hrest, -⟩
    · have h1 := (mem_children_range hc).1
      have h2 := le_of_mem_preorder ht hu
      omega
    · have hdc := (ht.mem_children_iff id d).2 hd
      have hud := mem_preorder_of_reaches ht ⟨rest, hrest⟩
      obtain rfl := child_unique ht hc hdc hu hud
      exact ⟨hs, rest, hrest⟩
  · rintro ⟨hs, h⟩
    exact reaches_child hs ((ht.mem_children_iff id c).1 hc) h

/-! ## The nodes that are reached, with the loops around them -/

/-- The nodes that are reached from a node in the order of a depth-first walk, each with the number
of loops on the path to it. -/
def visits (t : SyntaxTree) (id : Nat) : List (Nat × Nat) :=
  t.fold (fun id below =>
    let loops := t.loopsOn [id]
    (id, loops) ::
      if (t.kind id).isScope then (below.flatMap (·.2)).map fun v => (v.1, v.2 + loops) else []) id

theorem visits_eq (t : SyntaxTree) (id : Nat) : t.visits id = (id, t.loopsOn [id]) ::
    if (t.kind id).isScope then
      ((t.children id).flatMap t.visits).map fun v => (v.1, v.2 + t.loopsOn [id])
    else [] := by
  rw [visits, fold_eq, List.flatMap_map]
  rfl

theorem loopsOn_cons (t : SyntaxTree) (id : Nat) (nodes : List Nat) :
    t.loopsOn (id :: nodes) = t.loopsOn nodes + t.loopsOn [id] := by
  simp [loopsOn, List.countP_cons]

theorem mem_visits_iff (ht : t.Linked) {n : Nat} :
    (u, n) ∈ t.visits id ↔ ∃ nodes, t.Path id u nodes ∧ n = t.loopsOn nodes := by
  induction id using t.induction generalizing u n with
  | step id ih =>
    rw [visits_eq, List.mem_cons]
    constructor
    · rintro (h | h)
      · obtain ⟨rfl, rfl⟩ := Prod.mk.inj h
        exact ⟨[u], .here, rfl⟩
      · split at h
        · next hs =>
          obtain ⟨⟨v, m⟩, hv, he⟩ := List.mem_map.1 h
          obtain ⟨c, hc, hvc⟩ := List.mem_flatMap.1 hv
          obtain ⟨rfl, rfl⟩ := Prod.mk.inj he
          obtain ⟨nodes, hpath, rfl⟩ := (ih c hc).1 hvc
          exact ⟨id :: nodes, path_cons hs ((ht.mem_children_iff id c).1 hc) hpath,
            (loopsOn_cons t id nodes).symm⟩
        · cases h
    · rintro ⟨nodes, h, rfl⟩
      rcases path_cases h with ⟨rfl, rfl⟩ | ⟨hs, c, rest, hc, hrest, rfl⟩
      · exact .inl rfl
      · have hcc := (ht.mem_children_iff id c).2 hc
        refine .inr ?_
        rw [if_pos hs, loopsOn_cons t id rest]
        exact List.mem_map.2 ⟨(u, t.loopsOn rest),
          List.mem_flatMap_of_mem hcc ((ih c hcc).2 ⟨rest, hrest, rfl⟩), rfl⟩

open Classical in
/-- The nodes that are reached, in the order of a depth-first walk over all nodes. -/
theorem map_fst_visits (ht : t.Linked) (id : Nat) :
    (t.visits id).map Prod.fst = (t.preorder id).filter (t.Reaches id ·) := by
  induction id using t.induction with
  | step id ih =>
    have hbelow : ∀ c ∈ t.children id, (t.preorder c).filter (t.Reaches id ·) =
        if (t.kind id).isScope then (t.visits c).map Prod.fst else [] := by
      intro c hc
      split
      · next hs =>
        rw [ih c hc]
        refine List.filter_congr fun u hu => ?_
        simp [reaches_iff_child ht hc hu, hs]
      · next hs =>
        refine List.filter_eq_nil_iff.2 fun u hu => ?_
        simp [reaches_iff_child ht hc hu, hs]
    rw [visits_eq, preorder_eq, List.map_cons,
      List.filter_cons_of_pos (by simpa using reaches_self), List.filter_flatMap]
    congr 1
    split
    · next hs =>
      rw [List.map_map, List.map_flatMap]
      refine congrArg List.flatten (List.map_congr_left fun c hc => ?_)
      rw [hbelow c hc, if_pos hs]
      rfl
    · next hs =>
      refine (List.flatMap_eq_nil_iff.2 fun c hc => ?_).symm
      rw [hbelow c hc, if_neg hs]

/-! ## The time as a sum of costs -/

/-- The cost of a node apart from what is below it. -/
def ownCost (t : SyntaxTree) (u : Nat) : Cost :=
  match t.obstacle? u with
  | some reason => .unknown reason
  | none => if t.selfCallBound? u = some .exponential then .exponential else .power (t.ownDegree u)

/-- The costs of the nodes that are reached from a node. -/
def costs (t : SyntaxTree) (id : Nat) : List Cost :=
  (t.visits id).map fun v => (t.ownCost v.1).raise v.2

theorem recursionBound_cases (name : String) (calls : List String) :
    recursionBound name calls = .unknown (.recursion name) ∨
      recursionBound name calls = .known .linear ∨
      recursionBound name calls = .known .exponential := by
  unfold recursionBound
  split
  · exact .inl rfl
  · split
    · exact .inr (.inl rfl)
    · exact .inl rfl
  · exact .inr (.inr rfl)

theorem recursionTime_cases (t : SyntaxTree) (u : Nat) (name : String) :
    (∃ reason, t.recursionTime u name = .unknown reason) ∨
      t.recursionTime u name = .known .linear ∨ t.recursionTime u name = .known .exponential := by
  unfold recursionTime
  split
  · exact .inl ⟨_, rfl⟩
  · rcases recursionBound_cases _ _ with h | h
    · exact .inl ⟨_, h⟩
    · exact .inr h

theorem ownCost_of_recursiveCall {name : String} (hk : t.kind u = .recursiveCall name) :
    (t.ownCost u).time = t.recursionTime u name := by
  unfold ownCost ownDegree obstacle? selfCallBound?
  rw [hk]
  rcases recursionTime_cases t u name with ⟨reason, h⟩ | h | h
  · simp [h, TimeBound.reason?, Cost.time]
  · simp [h, TimeBound.reason?, TimeBound.bound?, Cost.time, Bound.linear, Bound.exponential,
      Bound.ofClass, Bound.polynomial]
  · simp [h, TimeBound.reason?, TimeBound.bound?, Cost.time]

/-- A node that is no call has no cost of its own. -/
theorem ownCost_of_no_call (hf : ∀ name, t.kind u ≠ .functionCall name)
    (hr : ∀ name, t.kind u ≠ .recursiveCall name) : t.ownCost u = .power 0 := by
  have ho : t.obstacle? u = none := by
    unfold obstacle?
    split
    · next name hk => exact absurd hk (hf name)
    · next name hk => exact absurd hk (hr name)
    · rfl
  have hb : t.selfCallBound? u = none := by
    unfold selfCallBound?
    split
    · next name hk => exact absurd hk (hr name)
    · rfl
  simp [ownCost, ownDegree, ho, hb]

theorem ownCost_of_isScope (hs : (t.kind u).isScope) : t.ownCost u = .power 0 := by
  apply ownCost_of_no_call
  · intro name hk
    simp [hk, NodeKind.isScope] at hs
  · intro name hk
    simp [hk, NodeKind.isScope] at hs

/-- A loop raises the dominant time of its parts, any other scope keeps it. -/
theorem timeAt_of_isScope (hs : (t.kind id).isScope) : t.timeAt id =
    if (t.kind id).isLoop then
      (((t.children id).map t.timeAt).foldl TimeBound.dominant .constant).inLoop
    else ((t.children id).map t.timeAt).foldl TimeBound.dominant .constant := by
  rw [timeAt, fold_eq, List.map_map]
  cases hk : t.kind id <;> simp_all [NodeKind.isScope, NodeKind.isLoop] <;> rfl

theorem timeAt_of_not_isScope (hs : ¬ (t.kind id).isScope) :
    t.timeAt id = (t.ownCost id).time := by
  rw [timeAt, fold_eq]
  cases hk : t.kind id with
  | recursiveCall name => exact (ownCost_of_recursiveCall hk).symm
  | functionCall name => simp [ownCost, obstacle?, hk, Cost.time]
  | program | block | conditional => simp [hk, NodeKind.isScope] at hs
  | functionDeclaration name => simp [hk, NodeKind.isScope] at hs
  | loop form header => simp [hk, NodeKind.isScope] at hs
  | _ => rw [ownCost_of_no_call (by simp [hk]) (by simp [hk])]; rfl

/-- The fold over the times of some nodes, in terms of costs that these times stand for. -/
theorem foldl_timeAt {ids : List Nat} {cost : Nat → Cost}
    (h : ∀ c ∈ ids, t.timeAt c = (cost c).time) :
    (ids.map t.timeAt).foldl TimeBound.dominant .constant = (Cost.sum (ids.map cost)).time := by
  have hmap : ids.map t.timeAt = (ids.map cost).map Cost.time := by
    rw [List.map_map]
    exact List.map_congr_left h
  have hconst : TimeBound.constant = (Cost.power 0).time := rfl
  rw [hmap, hconst, Cost.foldl_dominant, Cost.power_zero_join]

theorem costs_of_isScope (hs : (t.kind id).isScope) : t.costs id =
    .power (t.loopsOn [id]) ::
      ((t.children id).flatMap t.costs).map (Cost.raise (t.loopsOn [id])) := by
  rw [costs, visits_eq, if_pos hs, List.map_cons, List.map_map, ownCost_of_isScope hs]
  refine congrArg₂ List.cons (congrArg Cost.power (Nat.zero_add _)) ?_
  rw [List.map_flatMap, List.map_flatMap]
  congr 1
  funext c
  rw [costs, List.map_map]
  exact List.map_congr_left fun v _ => (Cost.raise_raise _ _ _).symm

/-- What is reached from a scope costs as much as what is reached from its children, raised if the
scope is a loop. -/
theorem sum_costs_of_isScope (hs : (t.kind id).isScope) : Cost.sum (t.costs id) =
    (Cost.sum ((t.children id).flatMap t.costs)).raise (t.loopsOn [id]) := by
  rw [costs_of_isScope hs, Cost.raise_sum]
  rfl

/-- The time of a node is that of all costs that are reached, in sequence. -/
theorem timeAt_eq_sum (t : SyntaxTree) (id : Nat) : t.timeAt id = (Cost.sum (t.costs id)).time := by
  induction id using t.induction with
  | step id ih =>
    by_cases hs : (t.kind id).isScope
    · have hparts : ((t.children id).map t.timeAt).foldl TimeBound.dominant .constant =
          (Cost.sum ((t.children id).flatMap t.costs)).time := by
        rw [foldl_timeAt ih, Cost.sum_flatMap]
      rw [timeAt_of_isScope hs, hparts, sum_costs_of_isScope hs]
      by_cases hl : (t.kind id).isLoop
      · rw [if_pos hl, loopsOn, List.countP_singleton, if_pos hl, Cost.time_raise_one]
      · rw [if_neg hl, loopsOn, List.countP_singleton, if_neg hl, Cost.raise_zero]
    · rw [timeAt_of_not_isScope hs, costs, visits_eq, if_neg hs, List.map_singleton]
      have hl : t.loopsOn [id] = 0 := by
        rw [loopsOn, List.countP_singleton]
        cases hk : t.kind id <;> simp_all [NodeKind.isScope, NodeKind.isLoop]
      rw [hl, Cost.raise_zero]
      exact congrArg Cost.time (Cost.join_power_zero _).symm

/-! ## What the sum is -/

theorem reason?_ownCost (t : SyntaxTree) (u : Nat) : (t.ownCost u).reason? = t.obstacle? u := by
  unfold ownCost
  cases t.obstacle? u with
  | some r => rfl
  | none => by_cases h : t.selfCallBound? u = some .exponential <;> simp [h, Cost.reason?]

theorem mem_costs_iff (ht : t.Linked) {c : Cost} : c ∈ t.costs id ↔
    ∃ u nodes, t.Path id u nodes ∧ c = (t.ownCost u).raise (t.loopsOn nodes) := by
  rw [costs, List.mem_map]
  constructor
  · rintro ⟨⟨u, n⟩, hv, rfl⟩
    obtain ⟨nodes, hpath, rfl⟩ := (mem_visits_iff ht).1 hv
    exact ⟨u, nodes, hpath, rfl⟩
  · rintro ⟨u, nodes, hpath, rfl⟩
    exact ⟨(u, t.loopsOn nodes), (mem_visits_iff ht).2 ⟨nodes, hpath, rfl⟩, rfl⟩

theorem findSome?_filter {α β : Type} (p : α → Bool) (f : α → Option β) (l : List α) :
    (l.filter p).findSome? f = l.findSome? fun x => if p x then f x else none := by
  induction l with
  | nil => rfl
  | cons x l ih =>
    rw [List.filter_cons, List.findSome?_cons]
    cases p x with
    | true => rw [if_pos rfl, if_pos rfl, List.findSome?_cons, ih]
    | false => exact ih

open Classical in
/-- The reason of a time is that of the first node that is reached and has one. -/
theorem reason?_timeAt (ht : t.Linked) (id : Nat) : (t.timeAt id).reason? =
    (t.preorder id).findSome? fun u => if t.Reaches id u then t.obstacle? u else none := by
  have hreason : Cost.reason? ∘ (fun v : Nat × Nat => (t.ownCost v.1).raise v.2) =
      t.obstacle? ∘ Prod.fst := by
    funext v
    rw [Function.comp_apply, Cost.reason?_raise, reason?_ownCost, Function.comp_apply]
  rw [timeAt_eq_sum, Cost.reason?_time, Cost.reason?_sum, costs, List.findSome?_map, hreason,
    ← List.findSome?_map, map_fst_visits ht, findSome?_filter]
  simp only [decide_eq_true_eq]

theorem timeAt_eq_unknown_iff (ht : t.Linked) {r : Unresolved} :
    t.timeAt id = .unknown r ↔ t.FirstObstacle id r := by
  have hreason : t.timeAt id = .unknown r ↔ (t.timeAt id).reason? = some r := by
    cases t.timeAt id <;> simp [TimeBound.reason?]
  rw [hreason, reason?_timeAt ht, List.findSome?_eq_some_iff, FirstObstacle]
  refine exists_congr fun before => exists_congr fun u => exists_congr fun after =>
    and_congr_right fun _ => ?_
  by_cases hu : t.Reaches id u
  · simp [hu]
  · simp [hu]

/-- The time is unknown if and only if a call without a known cost is reached. -/
theorem timeAt_unknown_iff (ht : t.Linked) :
    (∃ r, t.timeAt id = .unknown r) ↔ ∃ u, t.Reaches id u ∧ (t.obstacle? u).isSome := by
  have hreason : (∃ r, t.timeAt id = .unknown r) ↔ (t.timeAt id).reason?.isSome := by
    cases t.timeAt id <;> simp [TimeBound.reason?]
  rw [hreason, reason?_timeAt ht, List.findSome?_isSome_iff]
  constructor
  · rintro ⟨u, -, h⟩
    split at h
    · next hu => exact ⟨u, hu, h⟩
    · cases h
  · rintro ⟨u, hu, h⟩
    exact ⟨u, mem_preorder_of_reaches ht hu, by rwa [if_pos hu]⟩

theorem timeAt_eq_exponential (ht : t.Linked)
    (hknown : ∀ u, t.Reaches id u → t.obstacle? u = none)
    (hexp : ∃ u, t.Reaches id u ∧ t.selfCallBound? u = some .exponential) :
    t.timeAt id = .known .exponential := by
  rw [timeAt_eq_sum, Cost.sum_eq_exponential]
  · rfl
  · intro c hc
    obtain ⟨u, nodes, hpath, rfl⟩ := (mem_costs_iff ht).1 hc
    rw [Cost.reason?_raise, reason?_ownCost, hknown u ⟨nodes, hpath⟩]
  · obtain ⟨u, ⟨nodes, hpath⟩, hu⟩ := hexp
    refine (mem_costs_iff ht).2 ⟨u, nodes, hpath, ?_⟩
    have ho : t.ownCost u = .exponential := by
      simp [ownCost, hknown u ⟨nodes, hpath⟩, hu]
    rw [ho]
    rfl

theorem timeAt_eq_polynomial (ht : t.Linked)
    (hknown : ∀ u, t.Reaches id u → t.obstacle? u = none)
    (hexp : ∀ u, t.Reaches id u → t.selfCallBound? u ≠ some .exponential) :
    ∃ d, IsGreatest (t.pathDegrees id) d ∧
      t.timeAt id = .known (.polynomial (min 3 d).toUInt32) := by
  have hown : ∀ u, t.Reaches id u → t.ownCost u = .power (t.ownDegree u) := by
    intro u hu
    simp [ownCost, hknown u hu, hexp u hu]
  have hset : {n | Cost.power n ∈ t.costs id} = t.pathDegrees id := by
    ext n
    change Cost.power n ∈ t.costs id ↔ _
    rw [mem_costs_iff ht]
    refine exists_congr fun u => exists_congr fun nodes => and_congr_right fun hpath => ?_
    rw [hown u ⟨nodes, hpath⟩, Cost.raise, Cost.power.injEq, Nat.add_comm]
  have hne : t.costs id ≠ [] := by
    rw [costs, visits_eq]
    exact List.cons_ne_nil _ _
  have hall : ∀ c ∈ t.costs id, ∃ n, c = .power n := by
    intro c hc
    obtain ⟨u, nodes, hpath, rfl⟩ := (mem_costs_iff ht).1 hc
    rw [hown u ⟨nodes, hpath⟩]
    exact ⟨_, rfl⟩
  obtain ⟨d, hsum, hd⟩ := Cost.sum_eq_power hne hall
  refine ⟨d, hset ▸ hd, ?_⟩
  rw [timeAt_eq_sum, hsum]
  rfl

/-- The time at any node of any tree that a builder makes: unknown for the reason of the first call
without a known cost that is reached, else exponential if such a call is reached, else the power
with the greatest degree of a path, cut off at the third. -/
theorem timeAt_ofEdits (edits : List Builder.Edit) (id : Nat) :
    ((∃ r, (ofEdits edits).timeAt id = .unknown r) ↔
      ∃ u, (ofEdits edits).Reaches id u ∧ ((ofEdits edits).obstacle? u).isSome) ∧
    (∀ r, (ofEdits edits).timeAt id = .unknown r ↔ (ofEdits edits).FirstObstacle id r) ∧
    ((∀ u, (ofEdits edits).Reaches id u → (ofEdits edits).obstacle? u = none) →
      ((∃ u, (ofEdits edits).Reaches id u ∧
          (ofEdits edits).selfCallBound? u = some .exponential) →
        (ofEdits edits).timeAt id = .known .exponential) ∧
      ((∀ u, (ofEdits edits).Reaches id u →
          (ofEdits edits).selfCallBound? u ≠ some .exponential) →
        ∃ d, IsGreatest ((ofEdits edits).pathDegrees id) d ∧
          (ofEdits edits).timeAt id = .known (.polynomial (min 3 d).toUInt32))) ∧
    ((ofEdits edits).timeAt id).text ∈ ["O(1)", "O(n)", "O(n^2)", "O(n^3)", "O(2^n)", "O(?)"] := by
  have ht := linked_ofEdits edits
  refine ⟨timeAt_unknown_iff ht, fun r => timeAt_eq_unknown_iff ht, ?_, ?_⟩
  · intro hknown
    exact ⟨timeAt_eq_exponential ht hknown, timeAt_eq_polynomial ht hknown⟩
  · rw [timeAt_eq_sum]
    exact Cost.text_time _

end GrowthOrder.SyntaxTree
