import GrowthOrder.Proofs.Bound.Polynomial

/-!
# Costs: the time bounds that a walk over a tree can meet

A cost is unknown for a reason, exponential, or a power of unbounded degree. Costs in sequence form
a monoid and a loop raises a power by one. The bound that stands for a cost cuts powers off at the
third; it turns costs in sequence into the dominant bound and the raise into the bound of a loop, so
the bounds that a walk computes are those of the costs.
-/
namespace GrowthOrder

inductive Cost
  | unknown (reason : Unresolved)
  | exponential
  | power (degree : Nat)
  deriving DecidableEq

namespace Cost

/-- The bound that stands for a cost. -/
def time : Cost → TimeBound
  | unknown reason => .unknown reason
  | exponential => .known .exponential
  | power degree => .known (.polynomial (min 3 degree).toUInt32)

/-- Costs in sequence: the first unknown one decides, then an exponential one, then the degree. -/
def join : Cost → Cost → Cost
  | unknown reason, _ => unknown reason
  | exponential, unknown reason => unknown reason
  | power _, unknown reason => unknown reason
  | exponential, exponential => exponential
  | exponential, power _ => exponential
  | power _, exponential => exponential
  | power m, power n => power (max m n)

/-- The cost inside so many loops. -/
def raise (loops : Nat) : Cost → Cost
  | unknown reason => unknown reason
  | exponential => exponential
  | power degree => power (degree + loops)

def sum (costs : List Cost) : Cost :=
  costs.foldr join (power 0)

def reason? : Cost → Option Unresolved
  | unknown reason => some reason
  | _ => none

theorem power_zero_join (c : Cost) : (power 0).join c = c := by
  cases c with
  | unknown | exponential => rfl
  | power n => simp [join]

theorem join_power_zero (c : Cost) : c.join (power 0) = c := by
  cases c with
  | unknown | exponential => rfl
  | power n => simp [join]

theorem join_assoc (a b c : Cost) : (a.join b).join c = a.join (b.join c) := by
  cases a <;> cases b <;> cases c <;> simp [join, Nat.max_assoc]

theorem join_self (c : Cost) : c.join c = c := by
  cases c with
  | unknown | exponential => rfl
  | power n => exact congrArg power (Nat.max_self n)

theorem join_power_comm (c : Cost) (n : Nat) : c.join (power n) = (power n).join c := by
  cases c with
  | unknown | exponential => rfl
  | power m => exact congrArg power (Nat.max_comm m n)

/-- Powers in sequence with other costs are taken together. -/
theorem join_power_join (m n : Nat) (a b : Cost) :
    ((power m).join a).join ((power n).join b) = (power (max m n)).join (a.join b) := by
  rw [join_assoc, ← join_assoc a, join_power_comm a n, join_assoc (power n), ← join_assoc (power m)]
  rfl

theorem raise_join (n : Nat) (a b : Cost) : (a.join b).raise n = (a.raise n).join (b.raise n) := by
  cases a <;> cases b <;> simp [join, raise, Nat.add_max_add_right]

theorem raise_zero (c : Cost) : c.raise 0 = c := by
  cases c <;> rfl

theorem raise_raise (m n : Nat) (c : Cost) : (c.raise m).raise n = c.raise (m + n) := by
  cases c <;> simp [raise, Nat.add_assoc]

theorem sum_append (as bs : List Cost) : sum (as ++ bs) = (sum as).join (sum bs) := by
  induction as with
  | nil => exact (power_zero_join _).symm
  | cons a as ih =>
    change a.join (sum (as ++ bs)) = (a.join (sum as)).join (sum bs)
    rw [ih, join_assoc]

/-- Any number of calls costs as much as one. -/
theorem join_sum_self {α : Type} (self : Cost) (calls : List α) :
    self.join (sum (calls.map fun _ => self)) = self := by
  induction calls with
  | nil => exact join_power_zero self
  | cons c calls ih =>
    show self.join (self.join (sum (calls.map fun _ => self))) = self
    rw [ih, join_self]

theorem sum_flatMap {α : Type} (xs : List α) (f : α → List Cost) :
    sum (xs.flatMap f) = sum (xs.map fun x => sum (f x)) := by
  induction xs with
  | nil => rfl
  | cons x xs ih =>
    rw [List.flatMap_cons, sum_append, ih]
    rfl

/-- Raising a sum raises its parts, if the empty sum is raised with them. -/
theorem raise_sum (n : Nat) (cs : List Cost) :
    (sum cs).raise n = (power n).join (sum (cs.map (raise n))) := by
  induction cs with
  | nil => simp [sum, join, raise]
  | cons c cs ih =>
    change (c.join (sum cs)).raise n = (power n).join ((c.raise n).join (sum (cs.map (raise n))))
    rw [raise_join, ih, ← join_assoc, join_power_comm, join_assoc]

theorem time_join (a b : Cost) : (a.join b).time = a.time.dominant b.time := by
  cases a with
  | unknown => cases b <;> rfl
  | exponential =>
    cases b with
    | unknown | exponential => rfl
    | power n => exact congrArg TimeBound.known (Bound.exponential_add_polynomial _).symm
  | power m =>
    cases b with
    | unknown => rfl
    | exponential => exact congrArg TimeBound.known (Bound.polynomial_add_exponential _).symm
    | power n =>
      have hmin : (min 3 (max m n)).toUInt32 = max (min 3 m).toUInt32 (min 3 n).toUInt32 := by
        rw [← UInt32.toNat_inj, Bound.toNat_max]
        simp only [Nat.toUInt32, UInt32.toNat_ofNat']
        omega
      change TimeBound.known _ = TimeBound.known _
      rw [Bound.add_polynomial, hmin]

theorem time_raise_one (c : Cost) : (c.raise 1).time = c.time.inLoop := by
  cases c with
  | unknown => rfl
  | exponential => rfl
  | power n =>
    match n with
    | 0 | 1 | 2 => rfl
    | n + 3 =>
      have h : ∀ m, 3 ≤ m → min 3 m = 3 := fun m hm => Nat.min_eq_left hm
      simp only [raise, time]
      rw [h _ (by omega), h _ (by omega)]
      rfl

/-- The fold that a walk computes over the bounds of a node's children. -/
theorem foldl_dominant (cs : List Cost) (c : Cost) :
    (cs.map time).foldl TimeBound.dominant c.time = (c.join (sum cs)).time := by
  induction cs generalizing c with
  | nil => exact congrArg time (join_power_zero c).symm
  | cons d cs ih =>
    rw [List.map_cons, List.foldl_cons, ← time_join, ih, join_assoc]
    rfl

theorem reason?_time (c : Cost) : c.time.reason? = c.reason? := by
  cases c <;> rfl

theorem reason?_raise (n : Nat) (c : Cost) : (c.raise n).reason? = c.reason? := by
  cases c <;> rfl

theorem reason?_join (a b : Cost) : (a.join b).reason? = a.reason?.or b.reason? := by
  cases a <;> cases b <;> rfl

/-- A sum is unknown for the reason of its first part that is. -/
theorem reason?_sum (cs : List Cost) : (sum cs).reason? = cs.findSome? reason? := by
  induction cs with
  | nil => rfl
  | cons c cs ih =>
    change (c.join (sum cs)).reason? = _
    rw [reason?_join, ih, List.findSome?_cons]
    cases c.reason? <;> rfl

theorem sum_eq_exponential {cs : List Cost} (hk : ∀ c ∈ cs, c.reason? = none)
    (he : exponential ∈ cs) : sum cs = exponential := by
  induction cs with
  | nil => cases he
  | cons c cs ih =>
    have hc : c.reason? = none := hk c List.mem_cons_self
    have hcs : ∀ x ∈ cs, x.reason? = none := fun x hx => hk x (List.mem_cons_of_mem _ hx)
    have hsum : (sum cs).reason? = none := by
      rw [reason?_sum]
      exact List.findSome?_eq_none_iff.2 hcs
    change c.join (sum cs) = exponential
    rcases List.mem_cons.1 he with rfl | he
    · cases hs : sum cs with
      | unknown r =>
        rw [hs] at hsum
        cases hsum
      | exponential | power => rfl
    · rw [ih hcs he]
      cases c with
      | unknown r => cases hc
      | exponential | power => rfl

/-- A sum of powers is the greatest of them. -/
theorem sum_eq_power {cs : List Cost} (hne : cs ≠ []) (hp : ∀ c ∈ cs, ∃ n, c = power n) :
    ∃ d, sum cs = power d ∧ IsGreatest {n | power n ∈ cs} d := by
  induction cs with
  | nil => exact absurd rfl hne
  | cons c cs ih =>
    obtain ⟨n, rfl⟩ := hp c List.mem_cons_self
    by_cases hcs : cs = []
    · subst hcs
      refine ⟨n, join_power_zero (power n), List.mem_cons_self, ?_⟩
      intro m hm
      have : m = n := by simpa using hm
      omega
    · obtain ⟨d, hs, hd, hmax⟩ := ih hcs fun x hx => hp x (List.mem_cons_of_mem _ hx)
      refine ⟨max n d, ?_, ?_, ?_⟩
      · change (power n).join (sum cs) = _
        rw [hs]
        rfl
      · rcases Nat.le_total n d with h | h
        · rw [Nat.max_eq_right h]
          exact List.mem_cons_of_mem _ hd
        · rw [Nat.max_eq_left h]
          exact List.mem_cons_self
      · intro m hm
        rcases List.mem_cons.1 hm with h | h
        · have : m = n := power.inj h
          omega
        · have : m ≤ d := hmax h
          omega

theorem text_time (c : Cost) :
    c.time.text ∈ ["O(1)", "O(n)", "O(n^2)", "O(n^3)", "O(2^n)", "O(?)"] := by
  cases c with
  | unknown => simp [time, TimeBound.text]
  | exponential => decide
  | power n =>
    have h : min 3 n = 0 ∨ min 3 n = 1 ∨ min 3 n = 2 ∨ min 3 n = 3 := by omega
    rw [time]
    rcases h with h | h | h | h <;> rw [h] <;> decide

end Cost

end GrowthOrder
