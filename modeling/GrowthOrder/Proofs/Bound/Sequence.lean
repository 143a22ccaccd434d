import GrowthOrder.Proofs.Bound.Order

/-!
# Bounds in sequence

The bound of code in sequence is the dominant one. This is associative for all bounds: any degree in
any class, and any expression. It is commutative but for two expressions, which stay in the order
of the code, and two bounds of the constant class, of which the second stays; these may differ in
their degrees, since the test for the constant class does not look at them.
-/
namespace GrowthOrder.Bound

theorem isConstant_ranked {g : GrowthClass} {d : UInt32} :
    (ranked g d).isConstant ↔ g = .constant := by
  simp [isConstant, growth?]

theorem not_isConstant_symbolic (x : String) : ¬ (symbolic x).isConstant := by
  simp [isConstant, growth?]

theorem isConstant_iff {a : Bound} : a.isConstant ↔ ∃ d, a = ranked .constant d := by
  cases a with
  | ranked g d => simp [isConstant_ranked]
  | symbolic x => simp [not_isConstant_symbolic]

theorem add_of_isConstant_left {a : Bound} (ha : a.isConstant) (b : Bound) : a.add b = b :=
  if_pos ha

theorem add_of_isConstant_right {a b : Bound} (ha : ¬ a.isConstant) (hb : b.isConstant) :
    a.add b = a := by
  unfold add
  rw [if_neg ha, if_pos hb]

theorem symbolic_add_symbolic (x y : String) :
    (symbolic x).add (symbolic y) = symbolic (x ++ " + " ++ y) := rfl

theorem symbolic_add_ranked (x : String) {g : GrowthClass} {d : UInt32}
    (h : ¬ (ranked g d).isConstant) : (symbolic x).add (ranked g d) = ranked g d := by
  rw [add, if_neg (not_isConstant_symbolic x), if_neg h]

theorem ranked_add_symbolic {g : GrowthClass} {d : UInt32} (h : ¬ (ranked g d).isConstant)
    (x : String) : (ranked g d).add (symbolic x) = ranked g d := by
  rw [add, if_neg h, if_neg (not_isConstant_symbolic x)]

/-- The counterpart of `add_eq_of_atMost`. Of two constant bounds the first one does not stay. -/
theorem add_eq_left_of_atMost {a b : Bound} (h : b.AtMost a) (ha : ¬ a.isConstant) :
    a.add b = a := by
  by_cases hb : b.isConstant
  · exact add_of_isConstant_right ha hb
  · match a, b with
    | ranked g d, ranked g' d' =>
      rw [add, if_neg ha, if_neg hb]
      exact if_pos (atLeast_iff.2 h)

/-- The dominant one of two ranked bounds is one of them. -/
theorem ranked_add_ranked (g g' : GrowthClass) (d d' : UInt32) :
    (ranked g d).add (ranked g' d') = ranked g d ∨
      (ranked g d).add (ranked g' d') = ranked g' d' := by
  by_cases h : (ranked g d).isConstant
  · exact .inr (add_of_isConstant_left h _)
  · rcases atMost_total g g' d d' with hle | hle
    · exact .inr (add_eq_of_atMost hle)
    · exact .inl (add_eq_left_of_atMost hle h)

/-- In sequence, one of two bounds stays, or there is an expression. -/
theorem add_cases (a b : Bound) : a.add b = a ∨ a.add b = b ∨ ∃ z, a.add b = symbolic z := by
  by_cases hca : a.isConstant
  · exact .inr (.inl (add_of_isConstant_left hca b))
  by_cases hcb : b.isConstant
  · exact .inl (add_of_isConstant_right hca hcb)
  cases a with
  | symbolic x =>
    cases b with
    | symbolic y => exact .inr (.inr ⟨_, symbolic_add_symbolic x y⟩)
    | ranked g d => exact .inr (.inl (symbolic_add_ranked x hcb))
  | ranked g d =>
    cases b with
    | symbolic y => exact .inl (ranked_add_symbolic hca y)
    | ranked g' d' => exact (ranked_add_ranked g g' d d').imp_right .inl

theorem not_isConstant_add {a b : Bound} (ha : ¬ a.isConstant) (hb : ¬ b.isConstant) :
    ¬ (a.add b).isConstant := by
  rcases add_cases a b with h | h | ⟨z, h⟩
  · rwa [h]
  · rwa [h]
  · rw [h]
    exact not_isConstant_symbolic z

/-- Of three ranked bounds in sequence the greatest stays. -/
theorem ranked_add_assoc {g g' : GrowthClass} {d d' : UInt32} (h : ¬ (ranked g d).isConstant)
    (h' : ¬ (ranked g' d').isConstant) (g'' : GrowthClass) (d'' : UInt32) :
    ((ranked g d).add (ranked g' d')).add (ranked g'' d'') =
      (ranked g d).add ((ranked g' d').add (ranked g'' d'')) := by
  rcases atMost_total g g' d d' with hab | hba
  · rw [add_eq_of_atMost hab]
    rcases atMost_total g' g'' d' d'' with hbc | hcb
    · rw [add_eq_of_atMost hbc, add_eq_of_atMost (hab.trans hbc)]
    · rw [add_eq_left_of_atMost hcb h', add_eq_of_atMost hab]
  · rw [add_eq_left_of_atMost hba h]
    rcases atMost_total g' g'' d' d'' with hbc | hcb
    · rw [add_eq_of_atMost hbc]
    · rw [add_eq_left_of_atMost hcb h', add_eq_left_of_atMost hba h,
        add_eq_left_of_atMost (hcb.trans hba) h]

theorem add_assoc (a b c : Bound) : (a.add b).add c = a.add (b.add c) := by
  by_cases ha : a.isConstant
  · rw [add_of_isConstant_left ha, add_of_isConstant_left ha]
  by_cases hb : b.isConstant
  · rw [add_of_isConstant_right ha hb, add_of_isConstant_left hb]
  by_cases hc : c.isConstant
  · rw [add_of_isConstant_right hb hc, add_of_isConstant_right (not_isConstant_add ha hb) hc]
  -- a ranked bound that grows makes every expression beside it vanish, on either side
  cases a with
  | symbolic x =>
    cases b with
    | symbolic y =>
      cases c with
      | symbolic z => simp only [symbolic_add_symbolic, String.append_assoc]
      | ranked g d =>
        rw [symbolic_add_symbolic, symbolic_add_ranked _ hc, symbolic_add_ranked _ hc,
          symbolic_add_ranked _ hc]
    | ranked g d =>
      rw [symbolic_add_ranked _ hb]
      cases c with
      | symbolic z => rw [ranked_add_symbolic hb, symbolic_add_ranked _ hb]
      | ranked g' d' =>
        have hbc := not_isConstant_add hb hc
        rcases ranked_add_ranked g g' d d' with h | h <;> rw [h, symbolic_add_ranked _ ‹_›]
  | ranked g d =>
    cases b with
    | symbolic y =>
      rw [ranked_add_symbolic ha]
      cases c with
      | symbolic z => rw [symbolic_add_symbolic, ranked_add_symbolic ha, ranked_add_symbolic ha]
      | ranked g' d' => rw [symbolic_add_ranked _ hc]
    | ranked g' d' =>
      cases c with
      | symbolic z =>
        rw [ranked_add_symbolic hb]
        rcases ranked_add_ranked g g' d d' with h | h <;> rw [h, ranked_add_symbolic ‹_›]
      | ranked g'' d'' => exact ranked_add_assoc ha hb g'' d''

theorem add_comm {a b : Bound} (hs : ∀ x y, ¬ (a = symbolic x ∧ b = symbolic y))
    (hc : ∀ d e, ¬ (a = ranked .constant d ∧ b = ranked .constant e)) : a.add b = b.add a := by
  by_cases ha : a.isConstant
  · have hb : ¬ b.isConstant := by
      intro hb
      obtain ⟨d, had⟩ := isConstant_iff.1 ha
      obtain ⟨e, hbe⟩ := isConstant_iff.1 hb
      exact hc d e ⟨had, hbe⟩
    rw [add_of_isConstant_left ha, add_of_isConstant_right hb ha]
  by_cases hb : b.isConstant
  · rw [add_of_isConstant_left hb, add_of_isConstant_right ha hb]
  cases a with
  | symbolic x =>
    cases b with
    | symbolic y => exact absurd ⟨rfl, rfl⟩ (hs x y)
    | ranked g d => rw [symbolic_add_ranked x hb, ranked_add_symbolic hb x]
  | ranked g d =>
    cases b with
    | symbolic y => rw [symbolic_add_ranked y ha, ranked_add_symbolic ha y]
    | ranked g' d' =>
      rcases atMost_total g g' d d' with h | h
      · rw [add_eq_of_atMost h, add_eq_left_of_atMost h hb]
      · rw [add_eq_of_atMost h, add_eq_left_of_atMost h ha]

theorem ranked_add_self (g : GrowthClass) (d : UInt32) :
    (ranked g d).add (ranked g d) = ranked g d :=
  add_eq_of_atMost (atMost_refl g d)

/-- Only an expression changes by standing in sequence with itself: it gets longer. -/
theorem add_self_iff (a : Bound) : a.add a = a ↔ ∀ x, a ≠ symbolic x := by
  cases a with
  | symbolic x =>
    refine iff_of_false ?_ (fun h => h x rfl)
    intro h
    have hlen := congrArg String.length (symbolic.inj h)
    simp [String.length_append] at hlen
  | ranked g d => exact iff_of_true (ranked_add_self g d) (fun x h => by cases h)

theorem constant_add (b : Bound) : constant.add b = b := rfl

/-- The plain constant bound is a right identity but for other members of its class. -/
theorem add_constant_iff (a : Bound) :
    a.add constant = a ↔ ¬ ∃ d, d ≠ 0 ∧ a = ranked .constant d := by
  by_cases ha : a.isConstant
  · obtain ⟨d, rfl⟩ := isConstant_iff.1 ha
    rw [add_of_isConstant_left ha]
    simp [constant, ofClass, GrowthClass.baseDegree, eq_comm]
  · refine iff_of_true (add_of_isConstant_right ha rfl) ?_
    rintro ⟨d, -, rfl⟩
    exact ha rfl

end GrowthOrder.Bound
