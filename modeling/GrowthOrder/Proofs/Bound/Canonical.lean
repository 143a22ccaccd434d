import GrowthOrder.Proofs.Bound.Sequence
import Mathlib.Data.Prod.Lex

/-!
# Canonical bounds and their weights

A bound has its class and its degree side by side, and only some pairs of them mean something. The
canonical ones other than the exponential bound are fixed by a weight, the degree together with a
mark for a logarithmic factor, and the order of bounds is the lexicographic order of weights. Not
every weight belongs to a bound: beyond degree one there is none with a logarithmic factor, and such
a weight is rounded up to the next degree.
-/
namespace GrowthOrder.Bound

/-- A ranked bound whose degree is one that its class has. -/
def IsCanonical : Bound → Prop
  | ranked .constant d | ranked .logarithmic d | ranked .exponential d => d = 0
  | ranked .linear d | ranked .linearithmic d => d = 1
  | ranked .quadratic d => d = 2
  | ranked .cubic d => 3 ≤ d
  | symbolic _ => False

instance (a : Bound) : Decidable a.IsCanonical :=
  match a with
  | ranked .constant d | ranked .logarithmic d | ranked .exponential d =>
    inferInstanceAs (Decidable (d = 0))
  | ranked .linear d | ranked .linearithmic d => inferInstanceAs (Decidable (d = 1))
  | ranked .quadratic d => inferInstanceAs (Decidable (d = 2))
  | ranked .cubic d => inferInstanceAs (Decidable (3 ≤ d))
  | symbolic _ => inferInstanceAs (Decidable False)

/-- Canonical and not exponential. -/
def IsTame (a : Bound) : Prop :=
  a.IsCanonical ∧ a.growth? ≠ some .exponential

instance (a : Bound) : Decidable a.IsTame :=
  inferInstanceAs (Decidable (_ ∧ _))

/-- The degree and whether there is a logarithmic factor, compared in this order. -/
def weight : Bound → Nat ×ₗ Bool
  | ranked g d => toLex (d.toNat, g.hasLogFactor)
  | symbolic _ => toLex (0, false)

/-- The least weight of a canonical bound at or above another weight. -/
def roundUp (degree : Nat) (logFactor : Bool) : Nat ×ₗ Bool :=
  if logFactor ∧ 2 ≤ degree then toLex (degree + 1, false) else toLex (degree, logFactor)

variable {a b : Bound} {g g' : GrowthClass} {d d' : UInt32}

theorem IsCanonical.exists_ranked (h : a.IsCanonical) : ∃ g d, a = ranked g d := by
  cases a with
  | ranked g d => exact ⟨g, d, rfl⟩
  | symbolic x => exact h.elim

theorem isTame_iff : (ranked g d).IsTame ↔ (ranked g d).IsCanonical ∧ g ≠ .exponential := by
  simp [IsTame, growth?]

theorem isCanonical_ofClass (g : GrowthClass) : (ofClass g).IsCanonical := by
  cases g <;> simp [ofClass, IsCanonical, GrowthClass.baseDegree]

theorem eq_constant (ha : a.IsCanonical) (hc : a.isConstant) : a = constant := by
  obtain ⟨d, rfl⟩ := isConstant_iff.1 hc
  cases ha
  rfl

theorem eq_exponential (ha : a.IsCanonical) (he : a.growth? = some .exponential) :
    a = exponential := by
  obtain ⟨g, d, rfl⟩ := ha.exists_ranked
  obtain rfl := Option.some.inj he
  cases ha
  rfl

theorem isTame_polynomial (d : UInt32) : (polynomial d).IsTame := by
  unfold polynomial
  split
  · decide
  split
  · decide
  split
  · decide
  · next h0 h1 h2 =>
    refine ⟨?_, by simp [growth?]⟩
    change 3 ≤ d
    rw [← UInt32.toNat_inj] at h0 h1 h2
    rw [UInt32.le_iff_toNat_le]
    simp only [UInt32.toNat_ofNat] at h0 h1 h2 ⊢
    omega

theorem weight_polynomial (d : UInt32) : (polynomial d).weight = toLex (d.toNat, false) := by
  rw [polynomial_eq_ranked, weight, polynomialClass]
  split
  · rfl
  split
  · rfl
  split <;> rfl

/-- The lexicographic order in numbers. -/
theorem toLex_le_iff {n n' : Nat} {l l' : Bool} : toLex (n, l) ≤ toLex (n', l') ↔
    n < n' ∨ n = n' ∧ l.toNat ≤ l'.toNat := by
  rw [Prod.Lex.toLex_le_toLex]
  cases l <;> cases l' <;> simp

theorem toLex_add_le {m n n' : Nat} {k l l' : Bool} (h : toLex (n, l) ≤ toLex (n', l')) :
    toLex (m + n, k || l) ≤ toLex (m + n', k || l') := by
  rw [toLex_le_iff] at h ⊢
  cases k with
  | false => simpa using h
  | true =>
    rw [Bool.true_or, Bool.true_or]
    omega

/-- The place of a class in the order, from the weight. -/
theorem rank_of_isTame (h : (ranked g d).IsTame) : g.rank =
    if 3 ≤ d.toNat then 5 else 2 * d.toNat + g.hasLogFactor.toNat := by
  obtain ⟨hd, hg⟩ := h
  cases g with
  | exponential => exact absurd rfl hg
  | cubic => exact (if_pos (UInt32.le_iff_toNat_le.1 hd)).symm
  | _ => cases hd; rfl

theorem hasLogFactor_iff : g.hasLogFactor ↔ g = .logarithmic ∨ g = .linearithmic := by
  cases g <;> decide

theorem degree_of_hasLogFactor (h : (ranked g d).IsTame) (hl : g.hasLogFactor) : d.toNat ≤ 1 := by
  obtain ⟨hd, -⟩ := h
  cases g with
  | logarithmic => cases hd; decide
  | linearithmic => cases hd; decide
  | _ => cases hl

theorem logFactor_eq_zero (h : (ranked g d).IsTame) : d.toNat ≤ 1 ∨ g.hasLogFactor.toNat = 0 := by
  cases hl : g.hasLogFactor with
  | false => exact .inr rfl
  | true => exact .inl (degree_of_hasLogFactor h hl)

/-- A canonical bound of the constant class weighs nothing. -/
theorem weight_of_isConstant (h : (ranked g d).IsCanonical) (hc : (ranked g d).isConstant) :
    d.toNat = 0 ∧ g.hasLogFactor = false := by
  obtain rfl := isConstant_ranked.1 hc
  cases h
  exact ⟨rfl, rfl⟩

theorem hasLogFactor_of_degree (h : (ranked g d).IsTame) (hc : ¬ (ranked g d).isConstant)
    (hd : d = 0) : g.hasLogFactor := by
  obtain ⟨hcanon, hg⟩ := h
  subst hd
  cases g with
  | constant => exact absurd rfl hc
  | logarithmic => rfl
  | exponential => exact absurd rfl hg
  | cubic => exact absurd hcanon (by decide)
  | _ => cases hcanon

/-- Canonical bounds below the exponential one are ordered by weight. -/
theorem atMost_iff_weight_le (ha : a.IsTame) (hb : b.IsTame) :
    a.AtMost b ↔ a.weight ≤ b.weight := by
  obtain ⟨g, d, rfl⟩ := ha.1.exists_ranked
  obtain ⟨g', d', rfl⟩ := hb.1.exists_ranked
  rw [atMost_iff, weight, weight, toLex_le_iff, rank_of_isTame ha, rank_of_isTame hb]
  have hl := logFactor_eq_zero ha
  have hl' := logFactor_eq_zero hb
  have hle := g.hasLogFactor.toNat_le
  have hle' := g'.hasLogFactor.toNat_le
  split <;> split <;> omega

theorem eq_of_weight_eq (ha : a.IsTame) (hb : b.IsTame) (h : a.weight = b.weight) : a = b := by
  obtain ⟨g, d, rfl⟩ := ha.1.exists_ranked
  obtain ⟨g', d', rfl⟩ := hb.1.exists_ranked
  exact eq_of_atMost ((atMost_iff_weight_le ha hb).2 h.le) ((atMost_iff_weight_le hb ha).2 h.ge)

theorem roundUp_of_isTame (h : (ranked g d).IsTame) :
    roundUp d.toNat g.hasLogFactor = (ranked g d).weight := by
  refine if_neg ?_
  rintro ⟨hl, hd⟩
  have := degree_of_hasLogFactor h hl
  omega

/-- A canonical bound is above a weight if it is above the weight rounded up. -/
theorem roundUp_le_weight_iff (ha : a.IsTame) (n : Nat) (l : Bool) :
    roundUp n l ≤ a.weight ↔ toLex (n, l) ≤ a.weight := by
  unfold roundUp
  split
  · next h =>
    obtain ⟨g, d, rfl⟩ := ha.1.exists_ranked
    have hl := logFactor_eq_zero ha
    rw [weight, toLex_le_iff, toLex_le_iff, h.1, Bool.toNat_false, Bool.toNat_true]
    omega
  · exact Iff.rfl

theorem atMost_exponential (h : a.IsCanonical) : a.AtMost exponential := by
  obtain ⟨g, d, rfl⟩ := h.exists_ranked
  cases g with
  | exponential => cases h; exact atMost_refl _ _
  | _ => exact .inl (by decide)

theorem constant_atMost (g : GrowthClass) (d : UInt32) : constant.AtMost (ranked g d) :=
  atMost_iff.2 ((Nat.eq_zero_or_pos g.rank).symm.imp id fun h => ⟨h.symm, Nat.zero_le _⟩)

theorem add_comm_of_isCanonical (ha : a.IsCanonical) (hb : b.IsCanonical) :
    a.add b = b.add a := by
  by_cases h : a.isConstant ∧ b.isConstant
  · rw [eq_constant ha h.1, eq_constant hb h.2]
  · refine add_comm ?_ ?_
    · rintro x y ⟨rfl, -⟩
      exact ha
    · rintro d e ⟨rfl, rfl⟩
      exact h ⟨rfl, rfl⟩

end GrowthOrder.Bound
