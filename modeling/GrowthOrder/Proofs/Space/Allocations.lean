import GrowthOrder.Estimate.Space
import GrowthOrder.Proofs.Bound.Polynomial
import GrowthOrder.Proofs.Draft.Placement
import GrowthOrder.Proofs.Tree.Nesting
import GrowthOrder.Token.Scan
import Mathlib

/-!
# The memory of a tree that is read

The walk for the memory carries the names of the functions on the way down and stops where one of
them is entered again. On a tree that is read the walk finds such a place exactly if some
definition or call stands below a definition of the same name. If there is none, the walk passes
all arrays and instances in the order of their numbers.
-/
namespace GrowthOrder

/-! ## Lists of allocations -/

namespace Allocation

/-- The degree of what an allocation contributes to the bound. -/
def degree : Allocation → UInt32
  | array shape => shape.rank.toUInt32
  | object => 1
  | reentry => 0

theorem bound_eq (a : Allocation) : a.bound = .polynomial a.degree := by
  cases a with
  | array shape =>
    rw [bound, degree]
    split
    · next h => rw [h]; rfl
    · rfl
  | object => rfl
  | reentry => rfl

end Allocation

namespace SpaceBound

/-- Without a reentry the bound is that of the greatest degree. -/
theorem exists_bound_ofAllocations {allocations : List Allocation}
    (h : .reentry ∉ allocations) :
    ∃ m, (ofAllocations allocations).bound = .polynomial m ∧
      IsGreatest {d | d = 0 ∨ ∃ a ∈ allocations, d = a.degree} m := by
  have hnot : allocations.any Allocation.isReentry = false := by
    rw [List.any_eq_false]
    intro a ha hr
    cases a <;> first | exact h ha | cases hr
  obtain ⟨m, hm, hgreatest⟩ := Bound.exists_foldl_add (allocations.map Allocation.degree) 0
  refine ⟨m, ?_, ?_⟩
  · rw [ofAllocations, hnot, ← hm, List.foldl_map]
    simp only [Allocation.bound_eq]
    rfl
  · simpa only [List.mem_map, eq_comm] using hgreatest

theorem recursive_ofAllocations (allocations : List Allocation) :
    (ofAllocations allocations).recursive = true ↔ .reentry ∈ allocations := by
  rw [ofAllocations, List.any_eq_true]
  constructor
  · rintro ⟨a, ha, hr⟩
    cases a <;> first | exact ha | cases hr
  · exact fun h => ⟨_, h, rfl⟩

theorem footprintOf_concat (sizes : List UInt64) (n : UInt64) :
    footprintOf (sizes ++ [n]) = some (match footprintOf sizes with
      | some sum => sum.add (.symbolic (toString n.toNat))
      | none => .symbolic (toString n.toNat)) := by
  rw [footprintOf, List.foldl_append]
  rfl

/-- The footprint is the sum of the sizes as they are listed. -/
theorem footprintOf_eq (sizes : List UInt64) : footprintOf sizes =
    if sizes = [] then none
    else some (.symbolic (" + ".intercalate (sizes.map fun n => toString n.toNat))) := by
  induction sizes using List.reverseRecOn with
  | nil => rfl
  | append_singleton sizes n ih =>
    have hne : sizes ++ [n] ≠ [] := List.append_ne_nil_of_right_ne_nil _ (List.cons_ne_nil _ _)
    rw [footprintOf_concat, ih, if_neg hne, List.map_append, List.map_singleton]
    by_cases hs : sizes = []
    · subst hs
      rfl
    · rw [if_neg hs, String.intercalate_append_of_ne_nil (mt List.map_eq_nil_iff.1 hs)
        (List.cons_ne_nil _ _), String.intercalate_singleton]
      rfl

end SpaceBound

/-! ## The walk -/

namespace NodeKind

/-- What a node of this kind takes of its own. -/
def allocation? : NodeKind → Option Allocation
  | arrayDeclaration shape => some (.array shape)
  | newInstance => some .object
  | _ => none

/-- The functions that are running below a node of this kind. -/
def runningBelow (running : List String) : NodeKind → List String
  | functionDeclaration name => name :: running
  | _ => running

theorem mem_runningBelow {running : List String} {k : NodeKind} {name : String} :
    name ∈ k.runningBelow running ↔ k = .functionDeclaration name ∨ name ∈ running := by
  cases k with
  | functionDeclaration callee =>
    rw [runningBelow, List.mem_cons]
    simp [eq_comm]
  | _ => simp [runningBelow]

end NodeKind

namespace SyntaxTree

variable {t : SyntaxTree} {id u v : Nat} {name : String} {running : List String}

/-- A node is left at once if it enters a running function; else it and its children count. -/
theorem allocationsAt_eq (ht : t.Arranged) (id : Nat) (running : List String) :
    t.allocationsAt id running =
      if (t.kind id).functionName?.any running.contains then [.reentry]
      else (t.kind id).allocation?.toList ++
        (t.children id).flatMap fun c => t.allocationsAt c ((t.kind id).runningBelow running) := by
  have hinert := ht.inert id
  rw [allocationsAt, fold_eq]
  simp only [List.flatMap_map]
  cases hk : t.kind id with
  | newInstance | returnStatement | literal | specialReference | typedef | sizeof | unknown =>
    rw [hinert (by rw [hk]; rfl)]
    rfl
  | _ => rfl

/-- A node that is about a function stands below a definition of this function. -/
def Reenters (t : SyntaxTree) : Prop :=
  ∃ u name, (t.kind u).functionName? = some name ∧
    ∃ v ∈ t.lineage u, t.kind v = .functionDeclaration name

theorem reentry_mem_iff_step (ht : t.Arranged) :
    .reentry ∈ t.allocationsAt id running ↔
      (∃ name, (t.kind id).functionName? = some name ∧ name ∈ running) ∨
      ∃ c ∈ t.children id,
        .reentry ∈ t.allocationsAt c ((t.kind id).runningBelow running) := by
  have hown : .reentry ∉ (t.kind id).allocation?.toList := by
    cases t.kind id <;> simp [NodeKind.allocation?]
  rw [allocationsAt_eq ht]
  split
  · next h =>
    obtain ⟨name, hn, hr⟩ := (Option.any_eq_true _ _).1 h
    exact iff_of_true List.mem_cons_self (.inl ⟨name, hn, List.contains_iff_mem.1 hr⟩)
  · next h =>
    rw [List.mem_append, List.mem_flatMap, or_iff_right hown]
    refine (or_iff_right ?_).symm
    rintro ⟨name, hn, hr⟩
    exact h ((Option.any_eq_true _ _).2 ⟨name, hn, List.contains_iff_mem.2 hr⟩)

/-- The walk from a node finds a reentry if a node is met that is about a running function or has
a definition of its name above it, at or below where the walk began. -/
theorem reentry_mem_iff (ht : t.Arranged) :
    .reentry ∈ t.allocationsAt id running ↔
      ∃ u ∈ t.preorder id, ∃ name, (t.kind u).functionName? = some name ∧
        (name ∈ running ∨
          ∃ v ∈ t.lineage u, v ∈ t.preorder id ∧ t.kind v = .functionDeclaration name) := by
  induction id using t.induction generalizing running with
  | step id ih =>
    rw [reentry_mem_iff_step ht]
    constructor
    · rintro (⟨name, hn, hr⟩ | ⟨c, hc, h⟩)
      · exact ⟨id, mem_preorder_self, name, hn, .inl hr⟩
      · obtain ⟨u, hu, name, hn, h⟩ := (ih c hc).1 h
        refine ⟨u, mem_preorder_child hc hu, name, hn, ?_⟩
        rcases h with h | ⟨v, hv, hvc, hf⟩
        · rcases NodeKind.mem_runningBelow.1 h with hf | hr
          · exact .inr ⟨id, mem_lineage_of_child ht.linked hc hu, mem_preorder_self, hf⟩
          · exact .inl hr
        · exact .inr ⟨v, hv, mem_preorder_child hc hvc, hf⟩
    · rintro ⟨u, hu, name, hn, h⟩
      rcases mem_preorder_cases hu with rfl | ⟨c, hc, huc⟩
      · rcases h with hr | ⟨v, hv, hvu, -⟩
        · exact .inl ⟨name, hn, hr⟩
        · have h1 := mem_lineage_lt hv
          have h2 := le_of_mem_preorder ht.linked hvu
          omega
      · refine .inr ⟨c, hc, (ih c hc).2 ⟨u, huc, name, hn, ?_⟩⟩
        rcases h with hr | ⟨v, hv, hvid, hf⟩
        · exact .inl (NodeKind.mem_runningBelow.2 (.inr hr))
        · -- the definition is below the child, or it is the node itself
          rcases mem_lineage_cases ht.linked hc huc hv with hvc | hvid'
          · exact .inr ⟨v, hv, hvc, hf⟩
          · rcases List.mem_cons.1 hvid' with rfl | hlt
            · exact .inl (NodeKind.mem_runningBelow.2 (.inl hf))
            · have h1 := mem_lineage_lt hlt
              have h2 := le_of_mem_preorder ht.linked hvid
              omega

/-- A walk without a reentry passes all that takes memory, in the order of the walk. -/
theorem allocationsAt_of_no_reentry (ht : t.Arranged)
    (h : .reentry ∉ t.allocationsAt id running) :
    t.allocationsAt id running = (t.preorder id).filterMap fun u => (t.kind u).allocation? := by
  induction id using t.induction generalizing running with
  | step id ih =>
    rw [reentry_mem_iff_step ht, not_or] at h
    obtain ⟨hname, hbelow⟩ := h
    have hnot : ¬ (t.kind id).functionName?.any running.contains := by
      intro hany
      obtain ⟨name, hn, hr⟩ := (Option.any_eq_true _ _).1 hany
      exact hname ⟨name, hn, List.contains_iff_mem.1 hr⟩
    have hchildren : ∀ c ∈ t.children id,
        t.allocationsAt c ((t.kind id).runningBelow running) =
          (t.preorder c).filterMap fun u => (t.kind u).allocation? :=
      fun c hc => ih c hc fun hr => hbelow ⟨c, hc, hr⟩
    rw [allocationsAt_eq ht, if_neg hnot, preorder_eq, List.filterMap_cons,
      List.filterMap_flatMap, List.flatMap_def, List.map_congr_left hchildren, ← List.flatMap_def]
    cases (t.kind id).allocation? <;> rfl

/-! ## The bound -/

/-- The degrees of what takes memory: none, one for an instance, and the rank of an array. -/
def spaceDegrees (t : SyntaxTree) : Set Nat :=
  {m | m = 0 ∨ (m = 1 ∧ ∃ u, t.kind u = .newInstance) ∨
    ∃ u shape, t.kind u = .arrayDeclaration shape ∧ m = shape.rank}

/-- The sizes of the arrays of fixed size, in the order of their numbers. -/
def arraySizes (t : SyntaxTree) : List UInt64 :=
  t.collect fun
    | .arrayDeclaration shape => shape.size
    | _ => none

/-- What takes memory in the whole tree, in the order of the numbers. -/
def allocations (t : SyntaxTree) : List Allocation :=
  t.collect NodeKind.allocation?

theorem mem_allocations {a : Allocation} (ha : ∃ u, (t.kind u).allocation? = some a) :
    a ∈ t.allocations := by
  obtain ⟨u, hu⟩ := ha
  refine List.mem_filterMap.2 ⟨u, List.mem_range.2 ?_, hu⟩
  rcases Nat.lt_or_ge u t.size with hlt | hge
  · exact hlt
  · rw [kind_of_size_le hge] at hu
    cases hu

theorem size?_allocations (t : SyntaxTree) :
    t.allocations.filterMap Allocation.size? = t.arraySizes := by
  rw [allocations, collect, List.filterMap_filterMap]
  refine congrArg (List.filterMap · _) (funext fun u => ?_)
  cases t.kind u <;> rfl

theorem degrees_allocations (t : SyntaxTree) :
    {d | d = 0 ∨ ∃ a ∈ t.allocations, d = a.degree} = Nat.toUInt32 '' t.spaceDegrees := by
  ext m
  constructor
  · rintro (rfl | ⟨a, ha, rfl⟩)
    · exact ⟨0, .inl rfl, rfl⟩
    · obtain ⟨u, -, hu⟩ := List.mem_filterMap.1 ha
      cases hk : t.kind u with
      | arrayDeclaration shape =>
        rw [hk] at hu
        cases hu
        exact ⟨shape.rank, .inr (.inr ⟨u, shape, hk, rfl⟩), rfl⟩
      | newInstance =>
        rw [hk] at hu
        cases hu
        exact ⟨1, .inr (.inl ⟨rfl, u, hk⟩), rfl⟩
      | _ =>
        rw [hk] at hu
        cases hu
  · rintro ⟨n, rfl | ⟨rfl, u, hk⟩ | ⟨u, shape, hk, rfl⟩, rfl⟩
    · exact .inl rfl
    · exact .inr ⟨.object, mem_allocations ⟨u, by rw [hk]; rfl⟩, rfl⟩
    · exact .inr ⟨.array shape, mem_allocations ⟨u, by rw [hk]; rfl⟩, rfl⟩

/-- The whole walk finds a reentry exactly if there is one in the tree. -/
theorem reentry_mem_root_iff (ht : t.Arranged) :
    .reentry ∈ t.allocationsAt 0 [] ↔ t.Reenters := by
  rw [reentry_mem_iff ht]
  constructor
  · rintro ⟨u, -, name, hn, hr | ⟨v, hv, -, hf⟩⟩
    · cases hr
    · exact ⟨u, name, hn, v, hv, hf⟩
  · rintro ⟨u, name, hn, v, hv, hf⟩
    have hu := lt_size_of_mem_lineage hv
    have hlt := mem_lineage_lt hv
    exact ⟨u, mem_preorder_root ht.linked hu, name, hn,
      .inr ⟨v, hv, mem_preorder_root ht.linked (by omega), hf⟩⟩

theorem allocationsAt_root (ht : t.Arranged) (h : ¬ t.Reenters) :
    t.allocationsAt 0 [] = t.allocations := by
  rw [← reentry_mem_root_iff ht] at h
  rw [allocationsAt_of_no_reentry ht h, ht.preorder_root]
  rfl

theorem exists_bound_of_not_reenters (ht : t.Arranged) (h : ¬ t.Reenters) :
    ∃ m, (SpaceBound.ofAllocations (t.allocationsAt 0 [])).bound = .polynomial m ∧
      IsGreatest {d | d = 0 ∨ ∃ a ∈ t.allocations, d = a.degree} m := by
  have hbound := SpaceBound.exists_bound_ofAllocations (mt (reentry_mem_root_iff ht).1 h)
  rwa [allocationsAt_root ht h] at hbound ⊢

theorem space_eq (ht : t.Arranged) : t.space = .ok (.ofAllocations (t.allocationsAt 0 [])) := by
  rw [space, ht.root?_eq]

theorem isGreatest_toNat {S : Set Nat} {m : UInt32} (hS : ∀ n ∈ S, n < 2 ^ 32)
    (h : IsGreatest (Nat.toUInt32 '' S) m) : IsGreatest S m.toNat := by
  have hround : ∀ n ∈ S, n.toUInt32.toNat = n := fun n hn =>
    UInt32.toNat_ofNat_of_lt (hS n hn)
  obtain ⟨⟨n, hn, rfl⟩, hle⟩ := h
  rw [hround n hn]
  refine ⟨hn, fun k hk => ?_⟩
  have hkn := UInt32.le_iff_toNat_le.1 (hle ⟨k, hk, rfl⟩)
  rwa [hround k hk, hround n hn] at hkn

/-- The memory of every tree that is read. It is recursive exactly if a definition or a call stands
below a definition of the same name, and then linear; else it has the greatest degree of what takes
memory, in 32 bits, and the sizes of arrays add up in the order of their numbers. -/
theorem space_ofTokens {d : Dialect} {tokens : List Token} (h : ofTokens d tokens = .ok t) :
    ∃ s, t.space = .ok s ∧ (s.recursive = true ↔ t.Reenters) ∧
      ((∃ u name, t.kind u = .recursiveCall name) → s.recursive = true) ∧
      (s.recursive = true → s.bound = .linear) ∧
      (s.recursive = false →
        (∃ m, s.bound = .polynomial m ∧ IsGreatest (Nat.toUInt32 '' t.spaceDegrees) m ∧
          ((∀ n ∈ t.spaceDegrees, n < 2 ^ 32) → IsGreatest t.spaceDegrees m.toNat)) ∧
        s.footprint =
          if t.arraySizes = [] then none
          else some (.symbolic
            (" + ".intercalate (t.arraySizes.map fun n => toString n.toNat)))) := by
  have ht := arranged_ofTokens h
  have hrec := (SpaceBound.recursive_ofAllocations (t.allocationsAt 0 [])).trans
    (reentry_mem_root_iff ht)
  refine ⟨.ofAllocations (t.allocationsAt 0 []), space_eq ht, hrec, ?_, ?_, ?_⟩
  · rintro ⟨u, name, hu⟩
    obtain ⟨v, hv, hf⟩ := ht.exists_function_of_recursiveCall hu
    exact hrec.2 ⟨u, name, by rw [hu]; rfl, v, hv, hf⟩
  · intro hr
    exact if_pos hr
  · intro hr
    have hno : ¬ t.Reenters := fun hre => by
      rw [hrec.2 hre] at hr
      cases hr
    obtain ⟨m, hm, hgreatest⟩ := exists_bound_of_not_reenters ht hno
    rw [degrees_allocations] at hgreatest
    refine ⟨⟨m, hm, hgreatest, fun hS => isGreatest_toNat hS hgreatest⟩, ?_⟩
    rw [allocationsAt_root ht hno, ← size?_allocations, ← SpaceBound.footprintOf_eq]
    rfl

/-- Two arrays of fixed size. -/
theorem space_ofTokens_arrays :
    ∃ t, ofTokens { grammar := .cLike } (Grammar.tokenize .cLike "int a[3][4]; int b[5];") = .ok t ∧
      ¬ t.Reenters ∧ ∃ s, t.space = .ok s ∧ s.bound = .quadratic ∧
        s.footprint = some (.symbolic "12 + 5") := by
  have heval : (ofTokens { grammar := .cLike }
      (Grammar.tokenize .cLike "int a[3][4]; int b[5];")).bind space =
        .ok ⟨.quadratic, false, some (.symbolic "12 + 5")⟩ := by cbv
  obtain ⟨t, ht, hspace⟩ := exists_of_bind_ofTokens heval
  obtain ⟨s, hs, hrec, -⟩ := space_ofTokens ht
  obtain rfl := Except.ok.inj (hspace.symm.trans hs)
  refine ⟨t, ht, fun hr => ?_, _, hs, rfl, rfl⟩
  cases hrec.2 hr

end SyntaxTree

end GrowthOrder
