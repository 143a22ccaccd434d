import GrowthOrder.Tree.Shape
import Mathlib

/-!
# The number of elements of an array

The sizes of an array are multiplied up in 64 bits, and the count is given up at the first product
that leaves them. Without a dimension of size zero the products only grow, so that the count is
known exactly if the whole product fits, in whatever order the dimensions stand. A zero makes the
whole product fit, but the multiplication gets as far as the zero only if the product in front of it
fits too: the count of such an array depends on the order of its dimensions.
-/
namespace GrowthOrder.Shape

/-- The product of the sizes, however large. -/
def extent (sizes : List UInt64) : Nat :=
  (sizes.map UInt64.toNat).prod

/-- The sizes in front of the first zero. -/
def leading (sizes : List UInt64) : List UInt64 :=
  sizes.takeWhile (· ≠ 0)

/-- Every dimension is a number. -/
def IsLiteral (dimensions : List Dimension) : Prop :=
  ∀ d ∈ dimensions, ∃ n, d = .literal n

@[simp] theorem extent_nil : extent [] = 1 := rfl

@[simp] theorem extent_cons (n : UInt64) (sizes : List UInt64) :
    extent (n :: sizes) = n.toNat * extent sizes :=
  List.prod_cons

@[simp] theorem leading_nil : leading [] = [] := rfl

theorem leading_zero (sizes : List UInt64) : leading (0 :: sizes) = [] := rfl

theorem leading_cons {n : UInt64} (hn : n ≠ 0) (sizes : List UInt64) :
    leading (n :: sizes) = n :: leading sizes := by
  simp [leading, hn]

theorem leading_eq {sizes : List UInt64} (h : 0 ∉ sizes) : leading sizes = sizes := by
  refine List.takeWhile_eq_self_iff.2 fun n hn => ?_
  have hne : n ≠ 0 := fun h0 => h (h0 ▸ hn)
  simpa using hne

theorem extent_leading_pos (sizes : List UInt64) : 0 < extent (leading sizes) := by
  induction sizes with
  | nil => exact Nat.one_pos
  | cons n sizes ih =>
    by_cases hn : n = 0
    · rw [hn, leading_zero]
      exact Nat.one_pos
    · rw [leading_cons hn, extent_cons]
      have hpos : 0 < n.toNat := Nat.pos_of_ne_zero fun h0 => hn (UInt64.toNat_inj.1 h0)
      exact Nat.mul_pos hpos ih

/-- A zero makes the whole product smaller than that in front of it. -/
theorem extent_le_leading (sizes : List UInt64) : extent sizes ≤ extent (leading sizes) := by
  induction sizes with
  | nil => exact Nat.le_refl 1
  | cons n sizes ih =>
    by_cases hn : n = 0
    · simp [hn, leading_zero]
    · rw [leading_cons hn, extent_cons, extent_cons]
      exact Nat.mul_le_mul_left _ ih

/-- The product in front of the first zero stays below a bound if each step towards it does. -/
theorem extent_leading_cons_lt_iff (a n : UInt64) (sizes : List UInt64) :
    a.toNat * extent (leading (n :: sizes)) < 2 ^ 64 ↔
      a.toNat * n.toNat < 2 ^ 64 ∧ a.toNat * n.toNat * extent (leading sizes) < 2 ^ 64 := by
  have ha : a.toNat < 2 ^ 64 := a.toNat_lt
  by_cases hn : n = 0
  · rw [hn, leading_zero]
    simpa using ha
  · rw [leading_cons hn, extent_cons, ← Nat.mul_assoc]
    have hle : a.toNat * n.toNat ≤ a.toNat * n.toNat * extent (leading sizes) :=
      Nat.le_mul_of_pos_right _ (extent_leading_pos sizes)
    exact ⟨fun h => ⟨hle.trans_lt h, h⟩, And.right⟩

theorem isLiteral_cons {d : Dimension} {dimensions : List Dimension} :
    IsLiteral (d :: dimensions) ↔ (∃ n, d = .literal n) ∧ IsLiteral dimensions :=
  List.forall_mem_cons

/-- A product of two words is given if it is one. -/
theorem product?_eq_some_iff {a b c : UInt64} :
    product? a b = some c ↔ a.toNat * b.toNat = c.toNat := by
  have hc : c.toNat < UInt64.size := c.toNat_lt_size
  unfold product?
  constructor
  · intro h
    split at h
    · next hlt =>
      cases h
      rw [UInt64.toNat_mul]
      exact (Nat.mod_eq_of_lt hlt).symm
    · cases h
  · intro h
    have hlt : a.toNat * b.toNat < UInt64.size := by omega
    have hmul : (a * b).toNat = c.toNat := by
      rw [UInt64.toNat_mul, ← h]
      exact Nat.mod_eq_of_lt hlt
    rw [if_pos hlt, UInt64.toNat_inj.1 hmul]

/-- The multiplication from a first factor on. -/
theorem foldlM_eq_some_iff (dimensions : List Dimension) (a c : UInt64) :
    dimensions.foldlM (fun count d => d.literal?.bind (product? count)) a = some c ↔
      IsLiteral dimensions ∧
      a.toNat * extent (dimensions.filterMap Dimension.literal?) = c.toNat ∧
      a.toNat * extent (leading (dimensions.filterMap Dimension.literal?)) < 2 ^ 64 := by
  induction dimensions generalizing a with
  | nil =>
    have ha : a.toNat < 2 ^ 64 := a.toNat_lt
    simp only [List.foldlM_nil, List.filterMap_nil, leading_nil, extent_nil, Nat.mul_one, ha,
      and_true, UInt64.toNat_inj]
    simp [IsLiteral]
  | cons d dimensions ih =>
    cases d with
    | symbolic text => simp [isLiteral_cons, Dimension.literal?]
    | unsized => simp [isLiteral_cons, Dimension.literal?]
    | literal n =>
      have hstep : (Dimension.literal n :: dimensions).foldlM
          (fun count d => d.literal?.bind (product? count)) a =
          (product? a n).bind (dimensions.foldlM fun count d => d.literal?.bind (product? count)) :=
        List.foldlM_cons
      have hsizes : (Dimension.literal n :: dimensions).filterMap Dimension.literal? =
          n :: dimensions.filterMap Dimension.literal? := rfl
      rw [hstep, hsizes, isLiteral_cons, extent_cons, extent_leading_cons_lt_iff, ← Nat.mul_assoc,
        Option.bind_eq_some_iff]
      constructor
      · rintro ⟨b, hb, hrest⟩
        rw [product?_eq_some_iff] at hb
        rw [ih, ← hb] at hrest
        have hlt : a.toNat * n.toNat < 2 ^ 64 := hb ▸ b.toNat_lt
        exact ⟨⟨⟨n, rfl⟩, hrest.1⟩, hrest.2.1, hlt, hrest.2.2⟩
      · rintro ⟨⟨-, hall⟩, hc, hlt, hlead⟩
        have hb : a.toNat * n.toNat = (UInt64.ofNat (a.toNat * n.toNat)).toNat :=
          (UInt64.toNat_ofNat_of_lt' hlt).symm
        refine ⟨_, product?_eq_some_iff.2 hb, (ih _).2 ⟨hall, ?_, ?_⟩⟩
        · rw [← hb]
          exact hc
        · rw [← hb]
          exact hlead

/-- The count as a number. -/
theorem size_toNat_eq_some_iff (s : Shape) (p : Nat) :
    s.size.map UInt64.toNat = some p ↔ IsLiteral s.dimensions ∧ extent s.literals = p ∧
      extent (leading s.literals) < 2 ^ 64 := by
  have hsize : ∀ c, s.size = some c ↔ IsLiteral s.dimensions ∧ extent s.literals = c.toNat ∧
      extent (leading s.literals) < 2 ^ 64 := by
    intro c
    have hfold := foldlM_eq_some_iff s.dimensions 1 c
    rwa [UInt64.toNat_one, Nat.one_mul, Nat.one_mul] at hfold
  rw [Option.map_eq_some_iff]
  constructor
  · rintro ⟨c, hc, rfl⟩
    exact (hsize c).1 hc
  · rintro ⟨hall, rfl, hlead⟩
    have hlt : extent s.literals < 2 ^ 64 := (extent_le_leading _).trans_lt hlead
    have hc : (UInt64.ofNat (extent s.literals)).toNat = extent s.literals :=
      UInt64.toNat_ofNat_of_lt' hlt
    exact ⟨_, (hsize _).2 ⟨hall, hc.symm, hlead⟩, hc⟩

/-- Where no size is zero, the count is known if the product fits. -/
theorem size_toNat_eq_some_iff_of_pos {s : Shape} (h : 0 ∉ s.literals) (p : Nat) :
    s.size.map UInt64.toNat = some p ↔
      IsLiteral s.dimensions ∧ extent s.literals = p ∧ p < 2 ^ 64 := by
  rw [size_toNat_eq_some_iff, leading_eq h]
  refine and_congr_right fun _ => and_congr_right fun heq => ?_
  rw [heq]

theorem isLiteral_perm {l m : List Dimension} (h : l.Perm m) : IsLiteral l ↔ IsLiteral m :=
  forall_congr' fun _ => imp_congr_left h.mem_iff

theorem extent_perm {l m : List UInt64} (h : l.Perm m) : extent l = extent m :=
  (h.map UInt64.toNat).prod_eq

theorem eq_of_map_toNat {o o' : Option UInt64}
    (h : ∀ p, o.map UInt64.toNat = some p ↔ o'.map UInt64.toNat = some p) : o = o' := by
  have hmap : o.map UInt64.toNat = o'.map UInt64.toNat := Option.ext h
  exact Option.map_injective (fun _ _ => UInt64.toNat_inj.1) hmap

/-- The count is known if every dimension is a number and the product of the sizes in front of the
first zero fits into 64 bits; it is then the product of all sizes. Without a zero that is the
product itself, and the order of the dimensions makes no difference. -/
theorem size_eq_extent (s : Shape) :
    (∀ p : Nat, s.size.map UInt64.toNat = some p ↔
      IsLiteral s.dimensions ∧ extent s.literals = p ∧ extent (leading s.literals) < 2 ^ 64) ∧
    (0 ∉ s.literals →
      (∀ p : Nat, s.size.map UInt64.toNat = some p ↔
        IsLiteral s.dimensions ∧ extent s.literals = p ∧ p < 2 ^ 64) ∧
      ∀ r : Shape, r.dimensions.Perm s.dimensions → r.size = s.size) := by
  refine ⟨size_toNat_eq_some_iff s, fun hs => ⟨size_toNat_eq_some_iff_of_pos hs, ?_⟩⟩
  intro r hperm
  have hliterals : r.literals.Perm s.literals := hperm.filterMap Dimension.literal?
  have hr : 0 ∉ r.literals := fun h0 => hs (hliterals.mem_iff.1 h0)
  refine eq_of_map_toNat fun p => ?_
  rw [size_toNat_eq_some_iff_of_pos hr, size_toNat_eq_some_iff_of_pos hs, isLiteral_perm hperm,
    extent_perm hliterals]

/-- Two sizes whose product nearly fills 64 bits. -/
theorem size_eq_extent_wide :
    ∃ s : Shape, s.dimensions = [.literal 4294967296, .literal 4294967295] ∧ 0 ∉ s.literals ∧
      s.size.map UInt64.toNat = some 18446744069414584320 ∧
      ∀ r : Shape, r.dimensions.Perm s.dimensions → r.size = s.size := by
  let s : Shape := ⟨[.literal 4294967296, .literal 4294967295], List.cons_ne_nil _ _⟩
  have hpos : 0 ∉ s.literals := by decide
  obtain ⟨hsize, hperm⟩ := (size_eq_extent s).2 hpos
  have hall : IsLiteral s.dimensions :=
    isLiteral_cons.2 ⟨⟨_, rfl⟩, isLiteral_cons.2 ⟨⟨_, rfl⟩, List.forall_mem_nil _⟩⟩
  exact ⟨s, rfl, hpos, (hsize _).2 ⟨hall, by decide, by decide⟩, hperm⟩

/-- A zero behind a product that does not fit comes too late: the count is not known, though it is
zero, and is found if the zero comes first. -/
theorem size_none_despite_zero :
    ∃ s r : Shape, s.dimensions = [.literal 4294967296, .literal 4294967296, .literal 0] ∧
      IsLiteral s.dimensions ∧ extent s.literals = 0 ∧ s.size.map UInt64.toNat ≠ some 0 ∧
      r.dimensions.Perm s.dimensions ∧ r.size.map UInt64.toNat = some 0 := by
  let s : Shape := ⟨[.literal 4294967296, .literal 4294967296, .literal 0], List.cons_ne_nil _ _⟩
  let r : Shape := ⟨[.literal 0, .literal 4294967296, .literal 4294967296], List.cons_ne_nil _ _⟩
  have hall : IsLiteral s.dimensions :=
    isLiteral_cons.2 ⟨⟨_, rfl⟩, isLiteral_cons.2 ⟨⟨_, rfl⟩,
      isLiteral_cons.2 ⟨⟨_, rfl⟩, List.forall_mem_nil _⟩⟩⟩
  have hperm : r.dimensions.Perm s.dimensions := by decide
  exact ⟨s, r, rfl, hall, by decide, by decide, hperm, by decide⟩

end GrowthOrder.Shape
