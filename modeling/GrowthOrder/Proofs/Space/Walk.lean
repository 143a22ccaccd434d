import GrowthOrder.Proofs.Space.Allocations

/-!
# The walk for the memory with one set of running functions

Instead of listing what takes memory, a walk can add it up on its way and keep one set of the
functions that are running: a definition puts its name in before its children are visited and takes
it out behind them. A definition whose name is in the set is not entered, so a name that is taken
out was not there before, and every visit leaves the set as it was. The sums are those of the list.
-/
namespace GrowthOrder

/-- What has been added up so far, and the functions that are running. -/
structure SpaceWalk where
  total : Bound := .constant
  footprint : Option Bound := none
  recursive : Bool := false
  running : Finset String := ∅

namespace SpaceWalk

def contribute (w : SpaceWalk) (amount : Bound) : SpaceWalk :=
  { w with total := w.total.add amount }

/-- Adds the elements of an array of fixed size. -/
def count (w : SpaceWalk) : Option UInt64 → SpaceWalk
  | none => w
  | some size =>
    let term := Bound.symbolic (toString size.toNat)
    { w with
      footprint := some (match w.footprint with
        | some sum => sum.add term
        | none => term) }

/-- Adds something that takes memory. -/
def take (w : SpaceWalk) : Allocation → SpaceWalk
  | .array shape => (w.contribute (Allocation.array shape).bound).count shape.size
  | .object => w.contribute .linear
  | .reentry => { w with recursive := true }

/-- A function starts to run. -/
def enter (w : SpaceWalk) (name : String) : SpaceWalk :=
  { w with running := insert name w.running }

def leave (w : SpaceWalk) (name : String) : SpaceWalk :=
  { w with running := w.running.erase name }

/-- A recursion makes the bound linear, whatever the sum is. -/
def result (w : SpaceWalk) : SpaceBound where
  bound := if w.recursive then .linear else w.total
  recursive := w.recursive
  footprint := w.footprint

end SpaceWalk

namespace SyntaxTree

/-- Adds what takes memory at or below a node. -/
def visit (t : SyntaxTree) (id : Nat) : SpaceWalk → SpaceWalk :=
  t.fold (fun id below w =>
    let all (w : SpaceWalk) := below.foldl (fun w child => child.2 w) w
    match t.kind id with
    | .arrayDeclaration shape => all (w.take (.array shape))
    | .newInstance => w.take .object
    | .functionDeclaration name =>
      if name ∈ w.running then w.take .reentry else (all (w.enter name)).leave name
    | .functionCall name | .recursiveCall name =>
      if name ∈ w.running then w.take .reentry else all w
    | .returnStatement =>
      below.foldl (fun w child => if t.kind child.1 = .expression then child.2 w else w) w
    | .literal | .specialReference | .typedef | .sizeof | .unknown => w
    | .program | .block | .loop _ _ | .conditional | .typeDeclaration _ | .expression
    | .initialization | .condition | .update => all w) id

/-- The memory of the whole tree, as the walk adds it up. -/
def visitedSpace (t : SyntaxTree) : Except AnalysisError SpaceBound :=
  match t.root? with
  | none => .error .emptyTree
  | some root => .ok (t.visit root {}).result

end SyntaxTree

/-! ## Adding up a list -/

namespace SpaceWalk

variable {w : SpaceWalk} {allocations : List Allocation} {running : List String} {name : String}

/-- The functions that are running are those of the list. -/
def Runs (w : SpaceWalk) (running : List String) : Prop :=
  ∀ name, name ∈ w.running ↔ name ∈ running

theorem Runs.contains_iff (h : w.Runs running) (name : String) :
    running.contains name = true ↔ name ∈ w.running := by
  rw [h, List.contains_iff_mem]

theorem Runs.enter (h : w.Runs running) (name : String) :
    (w.enter name).Runs (name :: running) := by
  intro other
  rw [SpaceWalk.enter, Finset.mem_insert, List.mem_cons, h]

theorem running_take (w : SpaceWalk) (a : Allocation) : (w.take a).running = w.running := by
  cases a with
  | array shape =>
    rw [take]
    cases shape.size <;> rfl
  | object => rfl
  | reentry => rfl

theorem running_foldl_take (w : SpaceWalk) (allocations : List Allocation) :
    (allocations.foldl take w).running = w.running := by
  induction allocations generalizing w with
  | nil => rfl
  | cons a allocations ih => rw [List.foldl_cons, ih, running_take]

theorem take_running (w : SpaceWalk) (running : Finset String) (a : Allocation) :
    take { w with running } a = { w.take a with running } := by
  cases a with
  | array shape =>
    rw [take, take]
    cases shape.size <;> rfl
  | object => rfl
  | reentry => rfl

/-- What is added up does not depend on what is running. -/
theorem foldl_take_running (w : SpaceWalk) (running : Finset String)
    (allocations : List Allocation) :
    allocations.foldl take { w with running } = { allocations.foldl take w with running } := by
  induction allocations generalizing w with
  | nil => rfl
  | cons a allocations ih => rw [List.foldl_cons, List.foldl_cons, take_running, ih]

/-- A function that was not running leaves the set as it was. -/
theorem leave_foldl_take (h : name ∉ w.running) (allocations : List Allocation) :
    (allocations.foldl take (w.enter name)).leave name = allocations.foldl take w := by
  rw [enter, foldl_take_running, leave]
  dsimp only
  rw [Finset.erase_insert h, ← foldl_take_running]

theorem Runs.take (h : w.Runs running) (a : Allocation) : (w.take a).Runs running := by
  intro name
  rw [running_take, h]

theorem Runs.foldl_take (h : w.Runs running) (allocations : List Allocation) :
    (allocations.foldl SpaceWalk.take w).Runs running := by
  intro name
  rw [running_foldl_take, h]

theorem recursive_foldl_take (w : SpaceWalk) (allocations : List Allocation) :
    (allocations.foldl take w).recursive =
      (w.recursive || allocations.any Allocation.isReentry) := by
  induction allocations generalizing w with
  | nil => exact (Bool.or_false _).symm
  | cons a allocations ih =>
    have hone : (w.take a).recursive = (w.recursive || a.isReentry) := by
      cases a with
      | array shape =>
        rw [take]
        cases shape.size <;> exact (Bool.or_false _).symm
      | object => exact (Bool.or_false _).symm
      | reentry => exact (Bool.or_true _).symm
    rw [List.foldl_cons, ih, hone, List.any_cons, Bool.or_assoc]

theorem total_foldl_take (w : SpaceWalk) (h : allocations.any Allocation.isReentry = false) :
    (allocations.foldl take w).total =
      allocations.foldl (fun total a => total.add a.bound) w.total := by
  induction allocations generalizing w with
  | nil => rfl
  | cons a allocations ih =>
    rw [List.any_cons, Bool.or_eq_false_iff] at h
    have hone : (w.take a).total = w.total.add a.bound := by
      cases a with
      | array shape =>
        rw [take]
        cases shape.size <;> rfl
      | object => rfl
      | reentry => cases h.1
    rw [List.foldl_cons, List.foldl_cons, ih _ h.2, hone]

theorem footprint_foldl_take (allocations : List Allocation) :
    (allocations.foldl take {}).footprint =
      SpaceBound.footprintOf (allocations.filterMap Allocation.size?) := by
  induction allocations using List.reverseRecOn with
  | nil => rfl
  | append_singleton allocations a ih =>
    rw [List.foldl_concat, List.filterMap_append]
    cases ha : a.size? with
    | none =>
      rw [List.filterMap_cons_none ha, List.filterMap_nil, List.append_nil, ← ih]
      cases a with
      | array shape =>
        have hsize : shape.size = none := ha
        rw [take, hsize]
        rfl
      | object => rfl
      | reentry => rfl
    | some size =>
      rw [List.filterMap_cons_some ha, List.filterMap_nil, SpaceBound.footprintOf_concat, ← ih]
      cases a with
      | array shape =>
        have hsize : shape.size = some size := ha
        rw [take, hsize]
        rfl
      | object => cases ha
      | reentry => cases ha

/-- The sums over a list of allocations are the bound of the list. -/
theorem result_foldl_take (allocations : List Allocation) :
    (allocations.foldl take {}).result = .ofAllocations allocations := by
  have hrecursive := recursive_foldl_take {} allocations
  rw [Bool.false_or] at hrecursive
  rw [result, SpaceBound.ofAllocations, hrecursive, footprint_foldl_take]
  cases h : allocations.any Allocation.isReentry with
  | true => rfl
  | false => rw [total_foldl_take _ h]

end SpaceWalk

/-! ## The walk -/

namespace SyntaxTree

variable {t : SyntaxTree}

/-- Visits of some nodes one after the other, if each adds up what is listed below its node. -/
theorem foldl_visit {children : List Nat} {running : List String} (p : Nat → Bool)
    (ih : ∀ c ∈ children, ∀ w : SpaceWalk, w.Runs running →
      t.visit c w = (t.allocationsAt c running).foldl SpaceWalk.take w)
    {w : SpaceWalk} (hw : w.Runs running) :
    children.foldl (fun w c => if p c then t.visit c w else w) w =
      (children.flatMap fun c => if p c then t.allocationsAt c running else []).foldl
        SpaceWalk.take w := by
  induction children generalizing w with
  | nil => rfl
  | cons c children ihc =>
    rw [List.foldl_cons, List.flatMap_cons, List.foldl_append]
    have hrest := fun c hc => ih c (List.mem_cons_of_mem _ hc)
    cases p c with
    | false => exact ihc hrest hw
    | true =>
      rw [if_pos rfl, if_pos rfl, ih c List.mem_cons_self w hw]
      exact ihc hrest (hw.foldl_take _)

/-- A visit adds up what is listed, and so leaves the set of running functions as it was. -/
theorem visit_eq_foldl (id : Nat) {running : List String} {w : SpaceWalk} (hw : w.Runs running) :
    t.visit id w = (t.allocationsAt id running).foldl SpaceWalk.take w := by
  induction id using t.induction generalizing running w with
  | step id ih =>
    have hall {running : List String} {w : SpaceWalk} (hw : w.Runs running) :
        (t.children id).foldl (fun w c => t.visit c w) w =
          ((t.children id).flatMap fun c => t.allocationsAt c running).foldl SpaceWalk.take w :=
      foldl_visit (fun _ => true) (fun c hc w hw => ih c hc hw) hw
    rw [visit, allocationsAt, fold_eq, fold_eq]
    simp only [List.foldl_map, List.flatMap_map]
    cases hk : t.kind id with
    | arrayDeclaration shape => exact hall (hw.take _)
    | newInstance => rfl
    | functionDeclaration name =>
      simp only [hw.contains_iff]
      by_cases hrunning : name ∈ w.running
      · rw [if_pos hrunning, if_pos hrunning]
        rfl
      · rw [if_neg hrunning, if_neg hrunning, ← SpaceWalk.leave_foldl_take hrunning]
        exact congrArg (SpaceWalk.leave · name) (hall (hw.enter name))
    | functionCall name | recursiveCall name =>
      simp only [hw.contains_iff]
      by_cases hrunning : name ∈ w.running
      · rw [if_pos hrunning, if_pos hrunning]
        rfl
      · rw [if_neg hrunning, if_neg hrunning]
        exact hall hw
    | returnStatement =>
      have hreturned := foldl_visit (fun c => t.kind c = .expression)
        (fun c hc w hw => ih c hc hw) hw
      simp only [decide_eq_true_eq] at hreturned
      exact hreturned
    | literal | specialReference | typedef | sizeof | unknown => rfl
    | program | block | loop | conditional | typeDeclaration | expression | initialization
    | condition | update => exact hall hw

theorem running_visit (id : Nat) (w : SpaceWalk) : (t.visit id w).running = w.running := by
  have hlisted : w.Runs w.running.toList := by
    intro name
    rw [Finset.mem_toList]
  rw [visit_eq_foldl id hlisted, SpaceWalk.running_foldl_take]

/-- The walk with one set gives the memory of every tree. -/
theorem visitedSpace_eq_space (t : SyntaxTree) : t.visitedSpace = t.space := by
  rw [visitedSpace, space]
  cases t.root? with
  | none => rfl
  | some root =>
    have hnone : ({} : SpaceWalk).Runs [] := by
      intro name
      simp
    dsimp only
    rw [visit_eq_foldl root hnone, SpaceWalk.result_foldl_take]

end SyntaxTree

end GrowthOrder
