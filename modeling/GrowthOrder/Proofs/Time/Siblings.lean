import GrowthOrder.Proofs.Bound.Sequence
import GrowthOrder.Proofs.Time.PathMaximum
import Mathlib

/-!
# The times of siblings

A walk over a tree goes through the parts of a scope from left to right and keeps the dominant time
so far. Times in sequence may be grouped in any way, known or not, since the first unknown one
decides in each of them. Times that are known and ranked, and of which none is a constant with a
degree, may also change places.
-/
namespace GrowthOrder

namespace TimeBound

theorem dominant_assoc (a b c : TimeBound) :
    (a.dominant b).dominant c = a.dominant (b.dominant c) := by
  cases a with
  | unknown r => rfl
  | known a =>
    cases b with
    | unknown r => rfl
    | known b =>
      cases c with
      | unknown r => rfl
      | known c => exact congrArg known (Bound.add_assoc a b c)

instance : Std.Associative dominant := ⟨dominant_assoc⟩

theorem dominant_eq_unknown_iff (a b : TimeBound) (r : Unresolved) : a.dominant b = unknown r ↔
    a = unknown r ∨ (∃ x, a = known x) ∧ b = unknown r := by
  cases a <;> cases b <;> simp [dominant]

theorem constant_dominant (a : TimeBound) : constant.dominant a = a := by
  cases a <;> rfl

/-- Times one after the other. -/
def inSequence (times : List TimeBound) : TimeBound :=
  times.foldl dominant constant

theorem inSequence_append {l m : List TimeBound} (hm : m ≠ []) :
    inSequence (l ++ m) = (inSequence l).dominant (inSequence m) := by
  -- the first of the later times takes up what the earlier ones have come to
  obtain ⟨a, m, rfl⟩ := List.exists_cons_of_ne_nil hm
  rw [inSequence, List.foldl_append, List.foldl_cons, List.foldl_assoc, inSequence, inSequence,
    List.foldl_cons, constant_dominant]

/-- A known time that is ranked and has no degree if it is constant. -/
def IsPlain (a : TimeBound) : Prop :=
  ∃ g d, a = known (.ranked g d) ∧ (g = .constant → d = 0)

theorem dominant_comm_of_isPlain {a b : TimeBound} (ha : a.IsPlain) (hb : b.IsPlain) :
    a.dominant b = b.dominant a := by
  obtain ⟨g, d, rfl, hd⟩ := ha
  obtain ⟨g', d', rfl, hd'⟩ := hb
  refine congrArg known ?_
  by_cases h : g = .constant ∧ g' = .constant
  · obtain ⟨rfl, rfl⟩ := h
    rw [hd rfl, hd' rfl]
  · refine Bound.add_comm (by simp) ?_
    rintro e e' ⟨he, he'⟩
    exact h ⟨(Bound.ranked.inj he).1, (Bound.ranked.inj he').1⟩

theorem inSequence_perm {l m : List TimeBound} (h : l.Perm m) (hl : ∀ a ∈ l, a.IsPlain) :
    inSequence l = inSequence m := by
  refine h.foldl_eq' ?_ constant
  intro a ha b hb c
  rw [dominant_assoc, dominant_comm_of_isPlain (hl a ha) (hl b hb), dominant_assoc]

end TimeBound

/-- A way of taking times together, two at a time. -/
inductive Grouping
  | part (time : TimeBound)
  | pair (first second : Grouping)

namespace Grouping

def time : Grouping → TimeBound
  | part time => time
  | pair first second => first.time.dominant second.time

/-- The times that are taken together, from left to right. -/
def parts : Grouping → List TimeBound
  | part time => [time]
  | pair first second => first.parts ++ second.parts

theorem parts_ne_nil (g : Grouping) : g.parts ≠ [] := by
  induction g with
  | part a => exact List.cons_ne_nil _ _
  | pair g h ihg _ => exact List.append_ne_nil_of_left_ne_nil ihg _

theorem time_eq (g : Grouping) : g.time = TimeBound.inSequence g.parts := by
  induction g with
  | part a => exact (TimeBound.constant_dominant a).symm
  | pair g h ihg ihh =>
    rw [time, parts, ihg, ihh, TimeBound.inSequence_append h.parts_ne_nil]

end Grouping

namespace TimeBound

/-- The laws of code in sequence, for bounds and for times. Grouping makes no difference to times in
sequence, nor does the order of plain ones, and the parts of a scope are times in sequence. -/
theorem sequence_laws :
    (∀ a b c : Bound, (a.add b).add c = a.add (b.add c)) ∧
    (∀ a b : Bound, (∀ x y, ¬ (a = .symbolic x ∧ b = .symbolic y)) →
      (∀ d e, ¬ (a = .ranked .constant d ∧ b = .ranked .constant e)) → a.add b = b.add a) ∧
    (∀ a : Bound, a.add a = a ↔ ∀ x, a ≠ .symbolic x) ∧
    (∀ a : Bound, Bound.constant.add a = a) ∧
    (∀ a : Bound, a.add .constant = a ↔ ¬ ∃ d, d ≠ 0 ∧ a = .ranked .constant d) ∧
    (∀ a b c : TimeBound, (a.dominant b).dominant c = a.dominant (b.dominant c)) ∧
    (∀ (a b : TimeBound) (r : Unresolved), a.dominant b = unknown r ↔
      a = unknown r ∨ (∃ x, a = known x) ∧ b = unknown r) ∧
    (∀ g : Grouping, g.time = inSequence g.parts) ∧
    (∀ l m : List TimeBound, l.Perm m → (∀ a ∈ l, a.IsPlain) → inSequence l = inSequence m) ∧
    (∀ (t : SyntaxTree) (id : Nat), (t.kind id).isScope → t.timeAt id =
      if (t.kind id).isLoop then (inSequence ((t.children id).map t.timeAt)).inLoop
      else inSequence ((t.children id).map t.timeAt)) :=
  ⟨Bound.add_assoc, fun _ _ => Bound.add_comm, Bound.add_self_iff, Bound.constant_add,
    Bound.add_constant_iff, dominant_assoc, dominant_eq_unknown_iff, Grouping.time_eq,
    fun _ _ => inSequence_perm, fun _ _ => SyntaxTree.timeAt_of_isScope⟩

/-- A loop, a statement and a loop in a loop, one after the other, then grouped from the right and
in another order. -/
theorem sequence_laws_loops :
    let t := SyntaxTree.ofEdits [.enter (.loop .whileLoop {}) none, .leave,
      .leaf .expression none, .enter (.loop .whileLoop {}) none,
      .enter (.loop .whileLoop {}) none]
    let g : Grouping := .pair (.part (known .linear))
      (.pair (.part constant) (.part (known .quadratic)))
    (t.children 0).map t.timeAt = g.parts ∧ (∀ a ∈ g.parts, a.IsPlain) ∧
      t.timeAt 0 = known .quadratic ∧ t.timeAt 0 = g.time ∧
      t.timeAt 0 = inSequence g.parts.reverse := by
  intro t g
  obtain ⟨-, -, -, -, -, -, -, hgroup, hperm, hscope⟩ := sequence_laws
  have hparts : (t.children 0).map t.timeAt = g.parts := by cbv
  have hplain : ∀ a ∈ g.parts, a.IsPlain := by
    simp [g, Grouping.parts, IsPlain, constant, Bound.linear, Bound.constant, Bound.quadratic,
      Bound.ofClass, GrowthClass.baseDegree]
  have htime : t.timeAt 0 = inSequence g.parts := by
    rw [← hparts]
    exact hscope t 0 (by cbv)
  refine ⟨hparts, hplain, htime.trans (by cbv), htime.trans (hgroup g).symm, ?_⟩
  rw [htime, hperm g.parts g.parts.reverse g.parts.reverse_perm.symm hplain]

end TimeBound

end GrowthOrder
