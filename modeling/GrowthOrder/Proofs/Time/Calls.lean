import GrowthOrder.Proofs.Draft.Placement
import GrowthOrder.Proofs.Time.PathMaximum
import GrowthOrder.Token.Scan
import Mathlib

/-!
# Calls without a known cost

A call of another function makes the time of the whole tree unknown, wherever it stands among
scopes and in the arguments of calls of other functions. Only what stands in the arguments of a
recursive call is not looked at: the time of a recursive call is that of its rule alone.
-/
namespace GrowthOrder.SyntaxTree

variable {t : SyntaxTree} {u : Nat} {name : String}

/-- The nodes that are reached from the root are those with only scopes above them. -/
theorem reaches_root_iff (ht : t.Linked) (hu : u < t.size) :
    t.Reaches 0 u ↔ ∀ v ∈ t.lineage u, (t.kind v).isScope := by
  constructor
  · rintro ⟨nodes, h⟩
    induction h with
    | here =>
      intro v hv
      exact absurd (mem_lineage_lt hv) (Nat.not_lt_zero v)
    | @down p u nodes _ hs hp ih =>
      rw [lineage_of_parent hp]
      intro v hv
      rcases List.mem_cons.1 hv with rfl | hv
      · exact hs
      · exact ih (Nat.lt_trans (parent_eq_some_lt hp) hu) v hv
  · induction u using Nat.strongRecOn with
    | ind u ih =>
      intro h
      rcases Nat.eq_zero_or_pos u with rfl | hpos
      · exact reaches_self
      · obtain ⟨p, hp⟩ := ht.parent_of_pos u hpos hu
        have hlt := parent_eq_some_lt hp
        rw [lineage_of_parent hp] at h
        obtain ⟨nodes, hpath⟩ := ih p hlt (Nat.lt_trans hlt hu) fun v hv =>
          h v (List.mem_cons_of_mem _ hv)
        exact ⟨_, .down hpath (h p List.mem_cons_self) hp⟩

theorem isCall_of_obstacle? (h : (t.obstacle? u).isSome) : (t.kind u).isCall := by
  unfold obstacle? at h
  split at h
  · next hk => rw [hk]; rfl
  · next hk => rw [hk]; rfl
  · cases h

/-- A call without a known cost that is in the arguments of no recursive call is reached, or the
outermost call around it is. -/
theorem exists_reached_obstacle (ht : t.Arranged) (hu : (t.obstacle? u).isSome)
    (hno : ∀ v ∈ t.lineage u, ∀ callee, t.kind v ≠ .recursiveCall callee) :
    ∃ w, t.Reaches 0 w ∧ (t.obstacle? w).isSome := by
  induction u using Nat.strongRecOn with
  | ind u ih =>
    obtain ⟨p, hp, hkind, -⟩ := ht.call u (isCall_of_obstacle? hu)
    have hline := lineage_of_parent hp
    rcases hkind with hs | hc
    · refine ⟨u, (reaches_root_iff ht.linked (parent_lt_size hp)).2 ?_, hu⟩
      rw [hline]
      intro v hv
      rcases List.mem_cons.1 hv with rfl | hv
      · exact hs
      · exact ht.isScope_of_mem_lineage hs hv
    · rw [hline] at hno
      -- the call around this one is not recursive, so its own cost is not known
      have hcall : (t.obstacle? p).isSome := by
        have hp' := hno p List.mem_cons_self
        unfold obstacle?
        cases hk : t.kind p with
        | functionCall callee => rfl
        | recursiveCall callee => exact absurd hk (hp' callee)
        | _ =>
          rw [hk] at hc
          cases hc
      exact ih p (parent_eq_some_lt hp) hcall fun v hv => hno v (List.mem_cons_of_mem _ hv)

theorem time_eq (ht : t.Arranged) : t.time = .ok (t.timeAt 0) := by
  rw [time, ht.root?_eq]

/-- The time of every tree that is read is unknown exactly if a call without a known cost is in the
arguments of no recursive call; in particular, if a call of another function is. -/
theorem time_unknown_iff {d : Dialect} {tokens : List Token} (h : ofTokens d tokens = .ok t) :
    ((∃ r, t.time = .ok (.unknown r)) ↔ ∃ u, (t.obstacle? u).isSome ∧
      ∀ v ∈ t.lineage u, ∀ callee, t.kind v ≠ .recursiveCall callee) ∧
    ∀ u name, t.kind u = .functionCall name →
      (∀ v ∈ t.lineage u, ∀ callee, t.kind v ≠ .recursiveCall callee) →
      ∃ r, t.time = .ok (.unknown r) := by
  have ht := arranged_ofTokens h
  have htime : (∃ r, t.time = .ok (.unknown r)) ↔ ∃ r, t.timeAt 0 = .unknown r := by
    rw [time_eq ht]
    exact exists_congr fun r => ⟨Except.ok.inj, congrArg _⟩
  have hiff : (∃ r, t.time = .ok (.unknown r)) ↔ ∃ u, (t.obstacle? u).isSome ∧
      ∀ v ∈ t.lineage u, ∀ callee, t.kind v ≠ .recursiveCall callee := by
    rw [htime, timeAt_unknown_iff ht.linked]
    constructor
    · rintro ⟨u, hu, ho⟩
      refine ⟨u, ho, fun v hv callee hk => ?_⟩
      obtain ⟨p, hp, -⟩ := ht.call u (isCall_of_obstacle? ho)
      have hs := (reaches_root_iff ht.linked (parent_lt_size hp)).1 hu v hv
      rw [hk] at hs
      cases hs
    · rintro ⟨u, ho, hno⟩
      exact exists_reached_obstacle ht ho hno
  refine ⟨hiff, fun u name hk hno => hiff.2 ⟨u, ?_, hno⟩⟩
  unfold obstacle?
  rw [hk]
  rfl

/-- Two calls of other functions, one in the arguments of the other. -/
theorem time_unknown_iff_nested :
    ∃ t, ofTokens { grammar := .cLike } (Grammar.tokenize .cLike "g(h());") = .ok t ∧
      t.time = .ok (.unknown (.call "g")) ∧ ∃ u, (t.obstacle? u).isSome ∧
        ∀ v ∈ t.lineage u, ∀ callee, t.kind v ≠ .recursiveCall callee := by
  have heval : (ofTokens { grammar := .cLike } (Grammar.tokenize .cLike "g(h());")).bind time =
      .ok (.unknown (.call "g")) := by cbv
  obtain ⟨t, ht, htime⟩ := exists_of_bind_ofTokens heval
  exact ⟨t, ht, htime, (time_unknown_iff ht).1.1 ⟨_, htime⟩⟩

/-- A call of another function in the arguments of a recursive call does not count. -/
theorem time_known_despite_call :
    ∃ t, ofTokens { grammar := .cLike } (Grammar.tokenize .cLike
        "int f() \x7b return f(g()) + f(); \x7d") = .ok t ∧
      (∃ u, t.kind u = .functionCall "g") ∧ t.time = .ok (.known .exponential) := by
  have heval : (ofTokens { grammar := .cLike } (Grammar.tokenize .cLike
      "int f() \x7b return f(g()) + f(); \x7d")).bind (fun t => t.time.map fun time =>
        ((List.range t.size).any fun u => t.kind u = .functionCall "g", time)) =
      .ok (true, .known .exponential) := by cbv
  obtain ⟨t, ht, hval⟩ := exists_of_bind_ofTokens heval
  cases htime : t.time with
  | error e =>
    rw [htime] at hval
    cases hval
  | ok time =>
    rw [htime] at hval
    obtain ⟨hcall, rfl⟩ := Prod.mk.inj (Except.ok.inj hval)
    obtain ⟨u, -, hu⟩ := List.any_eq_true.1 hcall
    exact ⟨t, ht, ⟨u, of_decide_eq_true hu⟩, htime⟩

end GrowthOrder.SyntaxTree
