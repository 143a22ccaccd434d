import GrowthOrder.Proofs.Bound.Canonical
import Mathlib

/-!
# Bounds of nested code

The product of two canonical bounds has the sum of their degrees and the logarithmic factor of
either, rounded up to a weight that a canonical bound has. This is the least bound that can be
written down, and there is none if its degree leaves 32 bits. As weights add up in order, a product
grows with its factors, distributes over code in sequence and is not below either factor.
-/
namespace GrowthOrder.Bound

variable {a b c r : Bound} {g g' : GrowthClass} {d d' n : UInt32} {l : Bool}

theorem multiply?_of_isConstant_left (ha : a.isConstant) (b : Bound) : a.multiply? b = some b :=
  if_pos ha

theorem multiply?_of_isConstant_right (ha : ¬ a.isConstant) (hb : b.isConstant) :
    a.multiply? b = some a := by
  unfold multiply?
  rw [if_neg ha, if_pos hb]

theorem symbolic_multiply?_symbolic (x y : String) : (symbolic x).multiply? (symbolic y) =
    some (symbolic (factor x ++ " * " ++ factor y)) := rfl

theorem symbolic_multiply?_ranked (x : String) (h : ¬ (ranked g d).isConstant) :
    (symbolic x).multiply? (ranked g d) = some (ranked g d) := by
  rw [multiply?, if_neg (not_isConstant_symbolic x), if_neg h]

theorem ranked_multiply?_symbolic (h : ¬ (ranked g d).isConstant) (x : String) :
    (ranked g d).multiply? (symbolic x) = some (ranked g d) := by
  rw [multiply?, if_neg h, if_neg (not_isConstant_symbolic x)]

theorem ranked_multiply?_ranked (h : ¬ (ranked g d).isConstant) (h' : ¬ (ranked g' d').isConstant) :
    (ranked g d).multiply? (ranked g' d') =
      if g = .exponential ∨ g' = .exponential then some exponential
      else (sum? d d').bind fun n => nested? n (g.hasLogFactor || g'.hasLogFactor) := by
  rw [multiply?, if_neg h, if_neg h']

/-- A sum of two words is given if it is one. -/
theorem sum?_eq_some_iff : sum? d d' = some n ↔ d.toNat + d'.toNat = n.toNat := by
  have hn : n.toNat < UInt32.size := n.toNat_lt_size
  have hadd : (d + d').toNat = (d.toNat + d'.toNat) % UInt32.size := UInt32.toNat_add d d'
  rw [sum?, Option.ite_none_right_eq_some, Option.some_inj, ← UInt32.toNat_inj, hadd]
  constructor
  · rintro ⟨hlt, heq⟩
    rwa [Nat.mod_eq_of_lt hlt] at heq
  · intro heq
    exact ⟨heq ▸ hn, by rw [heq, Nat.mod_eq_of_lt hn]⟩

theorem sum?_eq_none_iff : sum? d d' = none ↔ 2 ^ 32 ≤ d.toNat + d'.toNat := by
  have hsize : UInt32.size = 2 ^ 32 := rfl
  unfold sum?
  split
  · next h => exact iff_of_false (Option.some_ne_none _) (by omega)
  · next h => exact iff_of_true rfl (by omega)

/-- The product of what is not constant has the weight that it is made for, rounded up. Without a
degree there is a logarithm in it. -/
theorem weight_of_nested? (h : nested? n l = some r) (h0 : n = 0 → l) :
    r.IsTame ∧ r.weight = roundUp n.toNat l := by
  unfold nested? at h
  split at h
  · next hn =>
    obtain rfl := Option.some.inj h
    rw [hn, h0 hn]
    exact ⟨by decide, rfl⟩
  · next hn =>
    split at h
    · next hl =>
      split at h
      · next h1 =>
        obtain rfl := Option.some.inj h
        rw [h1, hl]
        exact ⟨by decide, rfl⟩
      · next h1 =>
        obtain ⟨m, hm, rfl⟩ := Option.map_eq_some_iff.1 h
        have hm : n.toNat + 1 = m.toNat := sum?_eq_some_iff.1 hm
        have hn0 : n.toNat ≠ 0 := fun h => hn (UInt32.toNat_inj.1 h)
        have hn1 : n.toNat ≠ 1 := fun h => h1 (UInt32.toNat_inj.1 h)
        refine ⟨isTame_polynomial m, ?_⟩
        rw [weight_polynomial, roundUp, if_pos ⟨hl, by omega⟩, hm]
    · next hl =>
      obtain rfl := Option.some.inj h
      refine ⟨isTame_polynomial n, ?_⟩
      rw [weight_polynomial, roundUp, if_neg (fun hl' => hl hl'.1), Bool.eq_false_iff.2 hl]

theorem nested?_eq_none_iff : nested? n l = none ↔ n.toNat = 2 ^ 32 - 1 ∧ l := by
  have hsum : (sum? n 1).map polynomial = none ↔ n.toNat = 2 ^ 32 - 1 := by
    have hn : n.toNat < 2 ^ 32 := n.toNat_lt
    rw [Option.map_eq_none_iff, sum?_eq_none_iff, UInt32.toNat_one]
    omega
  unfold nested?
  split
  · next hn => simp [hn]
  · split
    · next hl =>
      split
      · next h1 => simp [h1]
      · rw [hsum, hl, and_iff_left rfl]
    · next hl => simp [hl]

/-- The weight of a product: degrees add up, and a logarithmic factor of either side stays. -/
theorem weight_of_multiply? (ha : (ranked g d).IsTame) (hb : (ranked g' d').IsTame)
    (h : (ranked g d).multiply? (ranked g' d') = some r) :
    r.IsTame ∧ r.weight = roundUp (d.toNat + d'.toNat) (g.hasLogFactor || g'.hasLogFactor) := by
  by_cases hca : (ranked g d).isConstant
  · rw [multiply?_of_isConstant_left hca] at h
    obtain rfl := Option.some.inj h
    obtain ⟨hd, hg⟩ := weight_of_isConstant ha.1 hca
    rw [hd, hg, Nat.zero_add, Bool.false_or, roundUp_of_isTame hb]
    exact ⟨hb, rfl⟩
  by_cases hcb : (ranked g' d').isConstant
  · rw [multiply?_of_isConstant_right hca hcb] at h
    obtain rfl := Option.some.inj h
    obtain ⟨hd, hg⟩ := weight_of_isConstant hb.1 hcb
    rw [hd, hg, Nat.add_zero, Bool.or_false, roundUp_of_isTame ha]
    exact ⟨ha, rfl⟩
  have hexp : ¬ (g = .exponential ∨ g' = .exponential) :=
    not_or.2 ⟨(isTame_iff.1 ha).2, (isTame_iff.1 hb).2⟩
  rw [ranked_multiply?_ranked hca hcb, if_neg hexp] at h
  obtain ⟨n, hn, hr⟩ := Option.bind_eq_some_iff.1 h
  rw [sum?_eq_some_iff.1 hn]
  refine weight_of_nested? hr fun hn0 => ?_
  have hd : d = 0 := by
    have := sum?_eq_some_iff.1 hn
    rw [hn0, UInt32.toNat_zero] at this
    exact UInt32.toNat_inj.1 (by rw [UInt32.toNat_zero]; omega)
  rw [hasLogFactor_of_degree ha hca hd, Bool.true_or]

theorem le_weight_of_multiply? (ha : (ranked g d).IsTame) (hb : (ranked g' d').IsTame)
    (h : (ranked g d).multiply? (ranked g' d') = some r) :
    toLex (d.toNat + d'.toNat, g.hasLogFactor || g'.hasLogFactor) ≤ r.weight := by
  obtain ⟨hr, hw⟩ := weight_of_multiply? ha hb h
  rw [← roundUp_le_weight_iff hr, hw]

/-- A product is the least canonical bound at or above the weight that it is made for. -/
theorem isLeast_of_multiply? (ha : (ranked g d).IsTame) (hb : (ranked g' d').IsTame)
    (h : (ranked g d).multiply? (ranked g' d') = some r) {s : Bound} (hs : s.IsTame) :
    r.AtMost s ↔ toLex (d.toNat + d'.toNat, g.hasLogFactor || g'.hasLogFactor) ≤ s.weight := by
  obtain ⟨hr, hw⟩ := weight_of_multiply? ha hb h
  rw [atMost_iff_weight_le hr hs, hw, roundUp_le_weight_iff hs]

theorem multiply?_comm (ha : a.IsCanonical) (hb : b.IsCanonical) :
    a.multiply? b = b.multiply? a := by
  by_cases hca : a.isConstant
  · by_cases hcb : b.isConstant
    · rw [eq_constant ha hca, eq_constant hb hcb]
    · rw [multiply?_of_isConstant_left hca, multiply?_of_isConstant_right hcb hca]
  by_cases hcb : b.isConstant
  · rw [multiply?_of_isConstant_left hcb, multiply?_of_isConstant_right hca hcb]
  obtain ⟨g, d, rfl⟩ := ha.exists_ranked
  obtain ⟨g', d', rfl⟩ := hb.exists_ranked
  have hsum : sum? d d' = sum? d' d := Option.ext fun n => by
    rw [sum?_eq_some_iff, sum?_eq_some_iff, Nat.add_comm]
  rw [ranked_multiply?_ranked hca hcb, ranked_multiply?_ranked hcb hca, hsum, Bool.or_comm]
  simp only [or_comm]

theorem exponential_multiply? (hb : b.IsCanonical) :
    exponential.multiply? b = some exponential := by
  have hc : ¬ exponential.isConstant := by decide
  by_cases hcb : b.isConstant
  · exact multiply?_of_isConstant_right hc hcb
  · obtain ⟨g, d, rfl⟩ := hb.exists_ranked
    exact (ranked_multiply?_ranked hc hcb).trans (if_pos (.inl rfl))

theorem multiply?_of_exponential (ha : a.IsCanonical) (hb : b.IsCanonical)
    (h : a.growth? = some .exponential ∨ b.growth? = some .exponential) :
    a.multiply? b = some exponential := by
  rcases h with h | h
  · rw [eq_exponential ha h, exponential_multiply? hb]
  · rw [multiply?_comm ha hb, eq_exponential hb h, exponential_multiply? ha]

theorem isCanonical_of_multiply? (ha : a.IsCanonical) (hb : b.IsCanonical)
    (h : a.multiply? b = some r) : r.IsCanonical := by
  by_cases he : a.growth? = some .exponential ∨ b.growth? = some .exponential
  · rw [multiply?_of_exponential ha hb he] at h
    obtain rfl := Option.some.inj h
    decide
  · obtain ⟨hea, heb⟩ := not_or.1 he
    obtain ⟨g, d, rfl⟩ := ha.exists_ranked
    obtain ⟨g', d', rfl⟩ := hb.exists_ranked
    exact (weight_of_multiply? ⟨ha, hea⟩ ⟨hb, heb⟩ h).1.1

/-- Nesting fails where the degrees of two growing bounds add up to more than a word, or fill one
that a logarithmic factor is yet to raise. -/
theorem multiply?_eq_none_iff : (ranked g d).multiply? (ranked g' d') = none ↔
    (g ≠ .constant ∧ g ≠ .exponential ∧ g' ≠ .constant ∧ g' ≠ .exponential) ∧
      (2 ^ 32 ≤ d.toNat + d'.toNat ∨
        d.toNat + d'.toNat = 2 ^ 32 - 1 ∧ (g.hasLogFactor ∨ g'.hasLogFactor)) := by
  by_cases hca : (ranked g d).isConstant
  · rw [multiply?_of_isConstant_left hca]
    exact iff_of_false (Option.some_ne_none _) fun h => h.1.1 (isConstant_ranked.1 hca)
  by_cases hcb : (ranked g' d').isConstant
  · rw [multiply?_of_isConstant_right hca hcb]
    exact iff_of_false (Option.some_ne_none _) fun h => h.1.2.2.1 (isConstant_ranked.1 hcb)
  rw [ranked_multiply?_ranked hca hcb]
  split
  · next he =>
    refine iff_of_false (Option.some_ne_none _) fun h => ?_
    exact he.elim h.1.2.1 h.1.2.2.2
  · next he =>
    obtain ⟨hea, heb⟩ := not_or.1 he
    have hgrow : g ≠ .constant ∧ g ≠ .exponential ∧ g' ≠ .constant ∧ g' ≠ .exponential :=
      ⟨mt isConstant_ranked.2 hca, hea, mt isConstant_ranked.2 hcb, heb⟩
    rw [and_iff_right hgrow]
    cases hsum : sum? d d' with
    | none => exact iff_of_true rfl (.inl (sum?_eq_none_iff.1 hsum))
    | some n =>
      have hn := sum?_eq_some_iff.1 hsum
      have hlt : n.toNat < 2 ^ 32 := n.toNat_lt
      rw [Option.bind_some, nested?_eq_none_iff, hn, Bool.or_eq_true]
      exact ⟨.inr, fun h => h.resolve_left (by omega)⟩

/-- What is made from the plain bounds of the classes, from powers and from expressions by code in
sequence and by nested code. -/
inductive Derived : Bound → Prop
  | ofClass (g : GrowthClass) : Derived (ofClass g)
  | polynomial (d : UInt32) : Derived (polynomial d)
  | symbolic (x : String) : Derived (symbolic x)
  | add {a b : Bound} : Derived a → Derived b → Derived (a.add b)
  | multiply {a b c : Bound} : Derived a → Derived b → a.multiply? b = some c → Derived c

theorem Derived.cases (h : Derived a) : (∃ x, a = Bound.symbolic x) ∨ a.IsCanonical := by
  induction h with
  | ofClass g => exact .inr (isCanonical_ofClass g)
  | polynomial d => exact .inr (isTame_polynomial d).1
  | symbolic x => exact .inl ⟨x, rfl⟩
  | @add a b _ _ iha ihb =>
    rcases add_cases a b with h | h | h
    · rwa [h]
    · rwa [h]
    · exact .inl h
  | @multiply a b c _ _ h iha ihb =>
    by_cases hca : a.isConstant
    · rw [multiply?_of_isConstant_left hca] at h
      exact Option.some.inj h ▸ ihb
    by_cases hcb : b.isConstant
    · rw [multiply?_of_isConstant_right hca hcb] at h
      exact Option.some.inj h ▸ iha
    rcases iha with ⟨x, rfl⟩ | iha
    · cases b with
      | symbolic y => exact .inl ⟨_, (Option.some.inj h).symm⟩
      | ranked g d =>
        rw [symbolic_multiply?_ranked x hcb] at h
        exact Option.some.inj h ▸ ihb
    · rcases ihb with ⟨y, rfl⟩ | ihb
      · obtain ⟨g, d, rfl⟩ := iha.exists_ranked
        rw [ranked_multiply?_symbolic hca y] at h
        exact Option.some.inj h ▸ .inr iha
      · exact .inr (isCanonical_of_multiply? iha ihb h)

theorem derived_of_isCanonical (h : a.IsCanonical) : Derived a := by
  obtain ⟨g, d, rfl⟩ := h.exists_ranked
  cases g with
  | cubic =>
    have htame : (ranked .cubic d).IsTame := isTame_iff.2 ⟨h, by decide⟩
    rw [← eq_of_weight_eq (isTame_polynomial d) htame (weight_polynomial d)]
    exact .polynomial d
  | _ => cases h; exact .ofClass _

theorem derived_iff (a : Bound) : Derived a ↔ (∃ x, a = symbolic x) ∨ a.IsCanonical := by
  refine ⟨Derived.cases, ?_⟩
  rintro (⟨x, rfl⟩ | h)
  · exact .symbolic x
  · exact derived_of_isCanonical h

/-- Bounds that can come up are expressions or canonical. The product of two canonical ones is the
least that is not below the sum of their degrees with the logarithmic factor of either, or the
exponential one; and products fail exactly where such a degree does not fit into 32 bits. -/
theorem multiply_isLeast :
    (∀ a : Bound, Derived a ↔ (∃ x, a = symbolic x) ∨ a.IsCanonical) ∧
    (∀ (g g' : GrowthClass) (d d' : UInt32) (r : Bound),
      (ranked g d).IsCanonical → (ranked g' d').IsCanonical →
      g ≠ .exponential → g' ≠ .exponential → (ranked g d).multiply? (ranked g' d') = some r →
      r.IsTame ∧ toLex (d.toNat + d'.toNat, g.hasLogFactor || g'.hasLogFactor) ≤ r.weight ∧
      ∀ s : Bound, s.IsTame →
        toLex (d.toNat + d'.toNat, g.hasLogFactor || g'.hasLogFactor) ≤ s.weight →
        r.AtMost s ∧ r.weight ≤ s.weight) ∧
    (∀ a b : Bound, a.IsCanonical → b.IsCanonical →
      a.growth? = some .exponential ∨ b.growth? = some .exponential →
      a.multiply? b = some exponential) ∧
    (∀ (g g' : GrowthClass) (d d' : UInt32), (ranked g d).multiply? (ranked g' d') = none ↔
      (g ≠ .constant ∧ g ≠ .exponential ∧ g' ≠ .constant ∧ g' ≠ .exponential) ∧
        (2 ^ 32 ≤ d.toNat + d'.toNat ∨ d.toNat + d'.toNat = 2 ^ 32 - 1 ∧
          ((g = .logarithmic ∨ g = .linearithmic) ∨ g' = .logarithmic ∨ g' = .linearithmic))) := by
  refine ⟨derived_iff, ?_, fun _ _ => multiply?_of_exponential, ?_⟩
  · intro g g' d d' r hd hd' hg hg' h
    have ha : (ranked g d).IsTame := isTame_iff.2 ⟨hd, hg⟩
    have hb : (ranked g' d').IsTame := isTame_iff.2 ⟨hd', hg'⟩
    have hr : r.IsTame := (weight_of_multiply? ha hb h).1
    refine ⟨hr, le_weight_of_multiply? ha hb h, fun s hs hle => ?_⟩
    have hrs : r.AtMost s := (isLeast_of_multiply? ha hb h hs).2 hle
    exact ⟨hrs, (atMost_iff_weight_le hr hs).1 hrs⟩
  · intro g g' d d'
    rw [multiply?_eq_none_iff, hasLogFactor_iff, hasLogFactor_iff]

/-- A square with a logarithm is rounded up to the cube, an exponential factor decides, and a
logarithm makes the highest degree overflow. -/
theorem multiply_isLeast_logarithmic :
    quadratic.multiply? logarithmic = some cubic ∧
      (∀ s : Bound, s.IsTame → toLex (2, true) ≤ s.weight → cubic.AtMost s) ∧
      linearithmic.multiply? exponential = some exponential ∧
      (ranked .cubic 4294967295).multiply? logarithmic = none := by
  obtain ⟨-, hleast, hexp, hnone⟩ := multiply_isLeast
  have hcubic : quadratic.multiply? logarithmic = some cubic := rfl
  obtain ⟨-, -, hmin⟩ := hleast .quadratic .logarithmic 2 0 cubic (by decide) (by decide)
    (by decide) (by decide) hcubic
  refine ⟨hcubic, fun s hs h => (hmin s hs h).1, ?_, ?_⟩
  · exact hexp linearithmic exponential (by decide) (by decide) (.inr rfl)
  · exact (hnone .cubic .logarithmic 4294967295 0).2 ⟨by decide, .inr ⟨by decide, by decide⟩⟩

/-- A product grows with its second factor. -/
theorem multiply?_mono {p q : Bound} (ha : a.IsCanonical) (hb : b.IsCanonical)
    (hc : c.IsCanonical) (hp : a.multiply? b = some p) (hq : a.multiply? c = some q)
    (h : b.AtMost c) : p.AtMost q := by
  by_cases he : a.growth? = some .exponential ∨ c.growth? = some .exponential
  · rw [multiply?_of_exponential ha hc he] at hq
    obtain rfl := Option.some.inj hq
    exact atMost_exponential (isCanonical_of_multiply? ha hb hp)
  obtain ⟨hea, hec⟩ := not_or.1 he
  have heb : b.growth? ≠ some .exponential := by
    -- no other canonical bound is above the exponential one
    intro heb
    rw [eq_exponential hb heb] at h
    obtain ⟨g, d, rfl⟩ := hc.exists_ranked
    have hexp : ranked g d = exponential := eq_of_atMost (atMost_exponential hc) h
    exact hec (congrArg growth? hexp)
  obtain ⟨g, d, rfl⟩ := ha.exists_ranked
  obtain ⟨g', d', rfl⟩ := hb.exists_ranked
  obtain ⟨g'', d'', rfl⟩ := hc.exists_ranked
  have hle := (atMost_iff_weight_le ⟨hb, heb⟩ ⟨hc, hec⟩).1 h
  have hq' : q.IsTame := (weight_of_multiply? ⟨ha, hea⟩ ⟨hc, hec⟩ hq).1
  refine (isLeast_of_multiply? ⟨ha, hea⟩ ⟨hb, heb⟩ hp hq').2 ?_
  exact (toLex_add_le hle).trans (le_weight_of_multiply? ⟨ha, hea⟩ ⟨hc, hec⟩ hq)

theorem multiply?_constant (ha : a.IsCanonical) : a.multiply? constant = some a :=
  (multiply?_comm ha (isCanonical_ofClass _)).trans (multiply?_of_isConstant_left rfl a)

/-- A product is not below its first factor, the product with the constant bound. -/
theorem atMost_multiply? {p : Bound} (ha : a.IsCanonical) (hb : b.IsCanonical)
    (hp : a.multiply? b = some p) : a.AtMost p := by
  have hle : constant.AtMost b := by
    obtain ⟨g, d, rfl⟩ := hb.exists_ranked
    exact constant_atMost g d
  exact multiply?_mono ha (isCanonical_ofClass _) hb (multiply?_constant ha) hp hle

/-- Nesting the larger one of two bounds gives the larger product. -/
theorem multiply?_add {p q : Bound} (ha : a.IsCanonical) (hb : b.IsCanonical)
    (hc : c.IsCanonical) (hp : a.multiply? b = some p) (hq : a.multiply? c = some q) :
    a.multiply? (b.add c) = some (p.add q) := by
  have hle : b.AtMost c ∨ c.AtMost b := by
    obtain ⟨g, d, rfl⟩ := hb.exists_ranked
    obtain ⟨g', d', rfl⟩ := hc.exists_ranked
    exact atMost_total g g' d d'
  rcases hle with h | h
  · rw [add_eq_of_atMost h, hq, add_eq_of_atMost (multiply?_mono ha hb hc hp hq h)]
  · have hp' := isCanonical_of_multiply? ha hb hp
    have hq' := isCanonical_of_multiply? ha hc hq
    rw [add_comm_of_isCanonical hb hc, add_comm_of_isCanonical hp' hq', add_eq_of_atMost h, hp,
      add_eq_of_atMost (multiply?_mono ha hc hb hq hp h)]

/-- Nested code respects the order of bounds: the product of canonical bounds is commutative,
distributes over code in sequence, grows with its factors and is not below their sum. -/
theorem nesting_laws {p q : Bound} (ha : a.IsCanonical) (hb : b.IsCanonical) (hc : c.IsCanonical)
    (hp : a.multiply? b = some p) (hq : a.multiply? c = some q) :
    b.multiply? a = some p ∧ a.multiply? (b.add c) = some (p.add q) ∧
      (b.AtMost c → p.AtMost q) ∧ (a.add b).AtMost p := by
  have hcomm : b.multiply? a = some p := (multiply?_comm hb ha).trans hp
  refine ⟨hcomm, multiply?_add ha hb hc hp hq, multiply?_mono ha hb hc hp hq, ?_⟩
  have hap : a.AtMost p := atMost_multiply? ha hb hp
  have hbp : b.AtMost p := atMost_multiply? hb ha hcomm
  obtain ⟨g, d, rfl⟩ := ha.exists_ranked
  obtain ⟨g', d', rfl⟩ := hb.exists_ranked
  rcases ranked_add_ranked g g' d d' with h | h <;> rwa [h]

/-- The class of `n log n` stays under another logarithm and goes up to the cube in a loop. -/
theorem nesting_laws_linearithmic :
    logarithmic.AtMost linear ∧ logarithmic.multiply? linearithmic = some linearithmic ∧
      linearithmic.multiply? (logarithmic.add linear) = some (linearithmic.add cubic) ∧
      linearithmic.AtMost cubic ∧ (linearithmic.add logarithmic).AtMost linearithmic := by
  have hle : logarithmic.AtMost linear := .inl (by decide)
  obtain ⟨hcomm, hadd, hmono, hsum⟩ := nesting_laws (a := linearithmic) (b := logarithmic)
    (c := linear) (p := linearithmic) (q := cubic) (by decide) (by decide) (by decide) rfl rfl
  exact ⟨hle, hcomm, hadd, hmono hle, hsum⟩

end GrowthOrder.Bound
