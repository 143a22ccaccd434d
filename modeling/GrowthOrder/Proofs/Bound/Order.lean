import GrowthOrder.Proofs.Bound.Polynomial

/-!
# The order of bounds

Ranked bounds are ordered by class and, within a class, by degree. In sequence, a bound leaves every
bound above it as it is. A time without a known bound counts as above all others.
-/
namespace GrowthOrder

theorem GrowthClass.rank_inj {g g' : GrowthClass} (h : g.rank = g'.rank) : g = g' := by
  revert h
  cases g <;> cases g' <;> decide

namespace Bound

/-- A ranked bound is not above another one: by class, then by degree. -/
def AtMost : Bound → Bound → Prop
  | ranked g d, ranked g' d' => g.rank < g'.rank ∨ g = g' ∧ d ≤ d'
  | _, _ => False

theorem atLeast_iff {g g' : GrowthClass} {d d' : UInt32} :
    atLeast g d g' d' = true ↔ (ranked g' d').AtMost (ranked g d) := by
  rw [atLeast, AtMost, Bool.or_eq_true, Bool.and_eq_true, decide_eq_true_eq, decide_eq_true_eq,
    decide_eq_true_eq]
  exact or_congr_right (and_congr_left fun _ => ⟨GrowthClass.rank_inj, congrArg _⟩)

/-- The order in numbers. -/
theorem atMost_iff {g g' : GrowthClass} {d d' : UInt32} : (ranked g d).AtMost (ranked g' d') ↔
    g.rank < g'.rank ∨ g.rank = g'.rank ∧ d.toNat ≤ d'.toNat :=
  or_congr_right (and_congr ⟨congrArg _, GrowthClass.rank_inj⟩ UInt32.le_iff_toNat_le)

theorem atMost_refl (g : GrowthClass) (d : UInt32) : (ranked g d).AtMost (ranked g d) :=
  .inr ⟨rfl, UInt32.le_refl d⟩

theorem atMost_total (g g' : GrowthClass) (d d' : UInt32) :
    (ranked g d).AtMost (ranked g' d') ∨ (ranked g' d').AtMost (ranked g d) := by
  rw [atMost_iff, atMost_iff]
  omega

theorem AtMost.trans {a b c : Bound} (hab : a.AtMost b) (hbc : b.AtMost c) : a.AtMost c := by
  match a, b, c with
  | ranked g d, ranked g' d', ranked g'' d'' =>
    rw [atMost_iff] at hab hbc ⊢
    omega

theorem eq_of_atMost {g g' : GrowthClass} {d d' : UInt32}
    (h : (ranked g d).AtMost (ranked g' d')) (h' : (ranked g' d').AtMost (ranked g d)) :
    ranked g d = ranked g' d' := by
  rcases h with h | ⟨rfl, h⟩
  · rcases h' with h' | ⟨rfl, -⟩ <;> omega
  · rcases h' with h' | ⟨-, h'⟩
    · omega
    · rw [UInt32.le_antisymm h h']

/-- In sequence with a bound that is not below it, a bound does not count. -/
theorem add_eq_of_atMost {a b : Bound} (h : a.AtMost b) : a.add b = b := by
  match a, b with
  | ranked g d, ranked g' d' =>
    unfold add
    by_cases ha : (ranked g d).isConstant
    · rw [if_pos ha]
    · have hb : ¬ (ranked g' d').isConstant := by
        -- nothing but a constant class is below the constant class
        intro hb
        have hg' : g' = .constant := by simpa [isConstant, growth?] using hb
        subst hg'
        rcases h with h | ⟨rfl, -⟩
        · exact Nat.not_lt_zero _ h
        · exact ha hb
      rw [if_neg ha, if_neg hb]
      dsimp only
      split
      · next hle => exact eq_of_atMost h (atLeast_iff.1 hle)
      · rfl

theorem polynomial_atMost {d e : UInt32} (h : d ≤ e) : (polynomial d).AtMost (polynomial e) := by
  rw [polynomial_eq_ranked, polynomial_eq_ranked]
  exact atLeast_iff.1 ((atLeast_polynomialClass e d).2 h)

theorem polynomial_atMost_exponential (d : UInt32) : (polynomial d).AtMost exponential := by
  rw [polynomial_eq_ranked, exponential, ofClass]
  refine .inl ?_
  rw [rank_polynomialClass, GrowthClass.rank]
  split
  · omega
  · split
    · omega
    · split <;> omega

end Bound

namespace TimeBound

/-- A time is not above another one: an unknown time is above all that are known. -/
def AtMost : TimeBound → TimeBound → Prop
  | _, unknown _ => True
  | unknown _, known _ => False
  | known a, known b => a.AtMost b

end TimeBound

end GrowthOrder
