import GrowthOrder.Bound
import Mathlib.Order.Bounds.Basic

/-!
# Polynomial bounds in sequence

The dominant one of two polynomial bounds is the one of larger degree, over all degrees of 32 bits.
The sum of a list of polynomial bounds is therefore the bound of its greatest degree.
-/
namespace GrowthOrder.Bound

theorem toNat_max (d e : UInt32) : (max d e).toNat = max d.toNat e.toNat := by
  change (if d ≤ e then e else d).toNat = _
  split
  · next h => exact (Nat.max_eq_right (UInt32.le_iff_toNat_le.1 h)).symm
  · next h => exact (Nat.max_eq_left (by rw [UInt32.le_iff_toNat_le] at h; omega)).symm

/-- The class to which a polynomial degree belongs. -/
def polynomialClass (degree : UInt32) : GrowthClass :=
  if degree = 0 then .constant
  else if degree = 1 then .linear
  else if degree = 2 then .quadratic
  else .cubic

theorem polynomial_eq_ranked (d : UInt32) : polynomial d = ranked (polynomialClass d) d := by
  unfold polynomial polynomialClass
  by_cases h0 : d = 0
  · subst h0
    rfl
  · rw [if_neg h0, if_neg h0]
    by_cases h1 : d = 1
    · subst h1
      rfl
    · rw [if_neg h1, if_neg h1]
      by_cases h2 : d = 2
      · subst h2
        rfl
      · rw [if_neg h2, if_neg h2]

/-- The rank of a polynomial's class, from the degree as a natural number. -/
theorem rank_polynomialClass (d : UInt32) : (polynomialClass d).rank =
    if d.toNat = 0 then 0 else if d.toNat = 1 then 2 else if d.toNat = 2 then 4 else 5 := by
  unfold polynomialClass
  simp only [← UInt32.toNat_inj, UInt32.toNat_ofNat]
  split
  · simp_all [GrowthClass.rank]
  · split
    · simp_all [GrowthClass.rank]
    · split <;> simp_all [GrowthClass.rank]

theorem atLeast_polynomialClass (d e : UInt32) :
    atLeast (polynomialClass d) d (polynomialClass e) e = true ↔ e ≤ d := by
  rw [atLeast, rank_polynomialClass, rank_polynomialClass, Bool.or_eq_true, Bool.and_eq_true,
    decide_eq_true_eq, decide_eq_true_eq, decide_eq_true_eq, UInt32.le_iff_toNat_le]
  grind

theorem isConstant_polynomial (d : UInt32) : (polynomial d).isConstant = decide (d = 0) := by
  rw [polynomial_eq_ranked, isConstant, growth?, polynomialClass]
  by_cases h : d = 0
  · simp [h]
  · rw [if_neg h]
    split
    · simp [h]
    · split <;> simp [h]

/-- In sequence, the larger degree stays. -/
theorem add_polynomial (d e : UInt32) :
    (polynomial d).add (polynomial e) = polynomial (max d e) := by
  have hmax : max d e = if d ≤ e then e else d := rfl
  unfold add
  rw [isConstant_polynomial, isConstant_polynomial]
  by_cases hd : d = 0
  · have hle : d ≤ e := by
      rw [hd]
      exact UInt32.zero_le
    rw [if_pos (by simpa using hd), hmax, if_pos hle]
  · rw [if_neg (by simpa using hd)]
    by_cases he : e = 0
    · have hle : ¬ d ≤ e := by
        rw [he, UInt32.le_iff_toNat_le]
        have : d.toNat ≠ 0 := fun h => hd (UInt32.toNat_inj.1 h)
        simpa using this
      rw [if_pos (by simpa using he), hmax, if_neg hle]
    · rw [if_neg (by simpa using he), polynomial_eq_ranked d, polynomial_eq_ranked e]
      simp only [atLeast_polynomialClass]
      rw [hmax]
      by_cases hle : e ≤ d
      · rw [if_pos hle]
        by_cases hde : d ≤ e
        · rw [if_pos hde, UInt32.le_antisymm hle hde, polynomial_eq_ranked]
        · rw [if_neg hde, polynomial_eq_ranked]
      · have hde : d ≤ e := (UInt32.le_total d e).resolve_right hle
        rw [if_neg hle, if_pos hde, polynomial_eq_ranked]

/-- A list of polynomial bounds in sequence has the greatest degree. -/
theorem exists_foldl_add (degrees : List UInt32) (d : UInt32) :
    ∃ m, degrees.foldl (fun total e => total.add (polynomial e)) (polynomial d) = polynomial m ∧
      IsGreatest {e | e = d ∨ e ∈ degrees} m := by
  induction degrees generalizing d with
  | nil => exact ⟨d, rfl, .inl rfl, fun e he => he.elim (fun h => h ▸ UInt32.le_refl _) nofun⟩
  | cons e degrees ih =>
    obtain ⟨m, hm, hmem, hle⟩ := ih (max d e)
    have hd : d ≤ max d e ∧ e ≤ max d e := by
      rw [UInt32.le_iff_toNat_le, UInt32.le_iff_toNat_le, toNat_max]
      exact ⟨Nat.le_max_left _ _, Nat.le_max_right _ _⟩
    have hmax : max d e = d ∨ max d e = e := by
      change (if d ≤ e then e else d) = d ∨ _
      split
      · next h => exact .inr (if_pos h)
      · exact .inl rfl
    refine ⟨m, ?_, ?_, ?_⟩
    · rw [List.foldl_cons, add_polynomial, hm]
    · rcases hmem with hmem | hmem
      · rcases hmax with h | h
        · exact .inl (hmem.trans h)
        · rw [h] at hmem
          exact .inr (hmem ▸ List.mem_cons_self)
      · exact .inr (List.mem_cons_of_mem _ hmem)
    · rintro x (rfl | hx)
      · exact UInt32.le_trans hd.1 (hle (.inl rfl))
      · rcases List.mem_cons.1 hx with rfl | hx
        · exact UInt32.le_trans hd.2 (hle (.inl rfl))
        · exact hle (.inr hx)

theorem polynomial_add_exponential (d : UInt32) :
    (polynomial d).add exponential = exponential := by
  rw [polynomial_eq_ranked, polynomialClass]
  split
  · rfl
  · split
    · rfl
    · split <;> rfl

theorem exponential_add_polynomial (d : UInt32) :
    exponential.add (polynomial d) = exponential := by
  rw [polynomial_eq_ranked, polynomialClass]
  split
  · rfl
  · split
    · rfl
    · split <;> rfl

end GrowthOrder.Bound
