import GrowthOrder.Proofs.Bound.Order
import GrowthOrder.Proofs.Space.Allocations
import GrowthOrder.Proofs.Time.Calls
import GrowthOrder.Report
import Mathlib

/-!
# The time of a program is above that of its functions

The time of the whole and the times of the functions come from walks that start at different nodes.
Along a path through scopes a cost only grows: the costs of a scope's parts are joined, and a loop
raises what it holds. The definitions of a tree that is read have only scopes above them, so none of
them is slower than the program, and one whose time is not known makes the time of the program
unknown.
-/
namespace GrowthOrder

namespace Cost

/-- Powers are ordered by degree; an exponential cost is above them and an unknown one above all. -/
def AtMost : Cost → Cost → Prop
  | _, unknown _ => True
  | unknown _, _ => False
  | _, exponential => True
  | exponential, power _ => False
  | power m, power n => m ≤ n

theorem AtMost.refl (a : Cost) : a.AtMost a := by
  cases a <;> simp [AtMost]

theorem AtMost.trans {a b c : Cost} (hab : a.AtMost b) (hbc : b.AtMost c) : a.AtMost c := by
  cases a <;> cases b <;> cases c <;> simp_all [AtMost]
  omega

theorem atMost_join_left (a b : Cost) : a.AtMost (a.join b) := by
  cases a <;> cases b <;> simp [join, AtMost]

theorem atMost_join_right (a b : Cost) : b.AtMost (a.join b) := by
  cases a <;> cases b <;> simp [join, AtMost]

theorem atMost_raise (n : Nat) (c : Cost) : c.AtMost (c.raise n) := by
  cases c <;> simp [raise, AtMost]

theorem atMost_sum {c : Cost} {cs : List Cost} (h : c ∈ cs) : c.AtMost (sum cs) := by
  induction cs with
  | nil => cases h
  | cons d cs ih =>
    change c.AtMost (d.join (sum cs))
    rcases List.mem_cons.1 h with rfl | h
    · exact atMost_join_left _ _
    · exact (ih h).trans (atMost_join_right _ _)

/-- The bounds that stand for costs are ordered as these are. -/
theorem time_atMost {a b : Cost} (h : a.AtMost b) : a.time.AtMost b.time := by
  cases b with
  | unknown reason =>
    cases a <;> exact trivial
  | exponential =>
    cases a with
    | unknown reason => exact h
    | exponential => exact .inr ⟨rfl, UInt32.le_refl _⟩
    | power m => exact Bound.polynomial_atMost_exponential _
  | power n =>
    cases a with
    | unknown reason => exact h
    | exponential => exact h.elim
    | power m =>
      have hmn : m ≤ n := h
      refine Bound.polynomial_atMost ?_
      rw [UInt32.le_iff_toNat_le]
      simp only [Nat.toUInt32, UInt32.toNat_ofNat']
      omega

end Cost

namespace SyntaxTree

variable {t : SyntaxTree} {id u : Nat}

/-- One step along a path does not lower the cost. -/
theorem sum_costs_child (hs : (t.kind id).isScope) (hu : u ∈ t.children id) :
    (Cost.sum (t.costs u)).AtMost (Cost.sum (t.costs id)) := by
  rw [sum_costs_of_isScope hs, Cost.sum_flatMap]
  refine Cost.AtMost.trans ?_ (Cost.atMost_raise _ _)
  exact Cost.atMost_sum (List.mem_map_of_mem hu)

theorem sum_costs_of_reaches (ht : t.Linked) (h : t.Reaches id u) :
    (Cost.sum (t.costs u)).AtMost (Cost.sum (t.costs id)) := by
  obtain ⟨nodes, h⟩ := h
  induction h with
  | here => exact Cost.AtMost.refl _
  | @down p u nodes _ hs hp ih =>
    exact (sum_costs_child hs ((ht.mem_children_iff p u).2 hp)).trans ih

/-- A node that is reached is not slower than the node from which it is reached. -/
theorem timeAt_of_reaches (ht : t.Linked) (h : t.Reaches id u) :
    (t.timeAt u).AtMost (t.timeAt id) := by
  rw [timeAt_eq_sum, timeAt_eq_sum]
  exact Cost.time_atMost (sum_costs_of_reaches ht h)

/-- Every definition of a tree that is read is reached from the root. -/
theorem reaches_definition (ht : t.Arranged) {name : String}
    (hu : t.kind u = .functionDeclaration name) : t.Reaches 0 u := by
  have hscope : (t.kind u).isScope := by
    rw [hu]
    rfl
  have hsize : u < t.size := by
    by_contra hle
    rw [kind_of_size_le (Nat.le_of_not_lt hle)] at hu
    cases hu
  exact (reaches_root_iff ht.linked hsize).2 fun v hv => ht.isScope_of_mem_lineage hscope hv

theorem exists_of_mem_functionTimes {entry : String × TimeBound} (h : entry ∈ t.functionTimes) :
    ∃ u, t.kind u = .functionDeclaration entry.1 ∧ entry.2 = t.timeAt u := by
  obtain ⟨u, -, hu⟩ := List.mem_filterMap.1 h
  split at hu
  · next name hk =>
    obtain rfl := Option.some.inj hu
    exact ⟨u, hk, rfl⟩
  · cases hu

theorem functionTimes_atMost (ht : t.Arranged) {entry : String × TimeBound}
    (h : entry ∈ t.functionTimes) : entry.2.AtMost (t.timeAt 0) := by
  obtain ⟨u, hk, htime⟩ := exists_of_mem_functionTimes h
  rw [htime]
  exact timeAt_of_reaches ht.linked (reaches_definition ht hk)

end SyntaxTree

namespace Dialect

variable {d : Dialect} {source : String} {r : Report}

/-- There is a report on every text of which a tree is read, with the times of that tree. -/
theorem exists_report {t : SyntaxTree}
    (ht : SyntaxTree.ofTokens d (d.tokenize source) = .ok t) :
    ∃ r, d.analyze source = .ok r ∧ r.time = t.timeAt 0 ∧ r.functions = t.functionTimes := by
  have harranged := SyntaxTree.arranged_ofTokens ht
  have hreport : d.analyze source = d.reportOn t (d.tokenize source).length := by
    change (SyntaxTree.ofTokens d (d.tokenize source)).bind
      (fun t => d.reportOn t (d.tokenize source).length) = _
    rw [ht]
    rfl
  rw [hreport, reportOn, SyntaxTree.time_eq harranged, SyntaxTree.space_eq harranged]
  exact ⟨_, rfl, rfl, rfl⟩

/-- The times of a report are those of the tree that was read. -/
theorem exists_tree_of_analyze (h : d.analyze source = .ok r) :
    ∃ t, SyntaxTree.ofTokens d (d.tokenize source) = .ok t ∧ r.time = t.timeAt 0 ∧
      r.functions = t.functionTimes := by
  obtain ⟨t, ht, -⟩ := SyntaxTree.exists_of_bind_ofTokens
    (f := fun t => d.reportOn t (d.tokenize source).length) h
  obtain ⟨r', hr', hvalues⟩ := exists_report ht
  obtain rfl := Except.ok.inj (h.symm.trans hr')
  exact ⟨t, ht, hvalues⟩

/-- No function of a report is slower than the program: if the time of a function is unknown, so is
that of the program, and if that of the program is known, the time of every function is known, is
not above it by class and degree and does not count in sequence with it. -/
theorem analyze_functions_atMost (h : d.analyze source = .ok r) :
    (∀ entry ∈ r.functions, (∃ reason, entry.2 = .unknown reason) →
      ∃ reason, r.time = .unknown reason) ∧
    ∀ bound, r.time = .known bound → ∀ entry ∈ r.functions,
      ∃ own, entry.2 = .known own ∧ own.AtMost bound ∧ own.add bound = bound := by
  obtain ⟨t, ht, htime, hfunctions⟩ := exists_tree_of_analyze h
  have hle : ∀ entry ∈ r.functions, entry.2.AtMost r.time := by
    rw [hfunctions, htime]
    exact fun entry => SyntaxTree.functionTimes_atMost (SyntaxTree.arranged_ofTokens ht)
  constructor
  · rintro entry hentry ⟨reason, hunknown⟩
    have hentry := hle entry hentry
    rw [hunknown] at hentry
    cases hr : r.time with
    | unknown reason => exact ⟨reason, rfl⟩
    | known bound =>
      rw [hr] at hentry
      exact hentry.elim
  · intro bound hbound entry hentry
    have hentry := hle entry hentry
    rw [hbound] at hentry
    cases hown : entry.2 with
    | unknown reason =>
      rw [hown] at hentry
      exact hentry.elim
    | known own =>
      rw [hown] at hentry
      exact ⟨own, rfl, hentry, Bound.add_eq_of_atMost hentry⟩

/-- A function with a loop, defined inside another loop, and a function with a call. -/
theorem analyze_functions_atMost_loops :
    (∃ r, analyze { grammar := .cLike } "while(a)\x7bint f()\x7bwhile(b)\x7b\x7d\x7d\x7d" = .ok r ∧
      r.time = .known .quadratic ∧ r.functions = [("f", .known .linear)] ∧
      Bound.linear.AtMost .quadratic ∧ Bound.linear.add .quadratic = .quadratic) ∧
    ∃ r, analyze { grammar := .cLike } "int f()\x7bg();\x7d" = .ok r ∧
      r.functions = [("f", .unknown (.call "g"))] ∧ ∃ reason, r.time = .unknown reason := by
  have hknown : (SyntaxTree.ofTokens { grammar := .cLike } (Grammar.tokenize .cLike
      "while(a)\x7bint f()\x7bwhile(b)\x7b\x7d\x7d\x7d")).bind
      (fun t => .ok (t.timeAt 0, t.functionTimes)) =
      .ok (.known .quadratic, [("f", .known .linear)]) := by cbv
  have hunknown : (SyntaxTree.ofTokens { grammar := .cLike } (Grammar.tokenize .cLike
      "int f()\x7bg();\x7d")).bind (fun t => .ok t.functionTimes) =
      .ok [("f", .unknown (.call "g"))] := by cbv
  constructor
  · obtain ⟨t, ht, hvalues⟩ := SyntaxTree.exists_of_bind_ofTokens hknown
    obtain ⟨hroot, htimes⟩ := Prod.mk.inj (Except.ok.inj hvalues)
    obtain ⟨r, hr, htime, hfunctions⟩ := exists_report ht
    rw [hroot] at htime
    rw [htimes] at hfunctions
    obtain ⟨own, hown, hle, hadd⟩ := (analyze_functions_atMost hr).2 _ htime ("f", .known .linear)
      (hfunctions ▸ List.mem_cons_self)
    obtain rfl := TimeBound.known.inj hown
    exact ⟨r, hr, htime, hfunctions, hle, hadd⟩
  · obtain ⟨t, ht, hvalues⟩ := SyntaxTree.exists_of_bind_ofTokens hunknown
    obtain ⟨r, hr, -, hfunctions⟩ := exists_report ht
    rw [Except.ok.inj hvalues] at hfunctions
    exact ⟨r, hr, hfunctions, (analyze_functions_atMost hr).1 ("f", .unknown (.call "g"))
      (hfunctions ▸ List.mem_cons_self) ⟨_, rfl⟩⟩

end Dialect

end GrowthOrder
