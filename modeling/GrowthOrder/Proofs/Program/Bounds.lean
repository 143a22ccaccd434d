import GrowthOrder.Proofs.Program.Reading
import GrowthOrder.Proofs.Space.Allocations
import GrowthOrder.Proofs.Time.Calls
import GrowthOrder.Token.Scan

/-!
# The bounds of programs with matched braces

A program with matched braces is read without an error and without open scopes. Its tree nests as
its statements do, so its time is the power with the depth of its loops, cut off at the third. It
holds no function, so its memory is that of its largest array.
-/
namespace GrowthOrder

/-- The degree of what a node of this kind takes of its own. -/
def NodeKind.degree? (k : NodeKind) : Option UInt32 :=
  k.allocation?.map Allocation.degree

namespace SyntaxTree

variable {t t' : SyntaxTree} {id : Nat}

/-! ## Time by nesting -/

theorem nesting_of_not_isScope (ht : t.Arranged) (hs : (t.kind id).isScope = false) :
    t.nesting id = .nil := by
  induction id using t.induction with
  | step id ih =>
    have hchildren : ∀ c ∈ t.children id, t.nesting c = .nil := by
      intro c hc
      refine ih c hc (Bool.eq_false_iff.2 fun hcs => ?_)
      have hparent := ht.scope c id hcs ((ht.linked.mem_children_iff id c).1 hc)
      rw [hs] at hparent
      cases hparent
    have hbelow : t.nestingOf (t.children id) = .nil := by
      rw [nestingOf, List.map_congr_left hchildren]
      induction t.children id with
      | nil => rfl
      | cons c cs ihc => exact ihc
    rw [nesting_eq, hbelow]
    cases hk : t.kind id with
    | loop | conditional =>
      rw [hk] at hs
      cases hs
    | _ => rfl

theorem sum_loopDepth (t : SyntaxTree) (ids : List Nat) :
    Cost.sum (ids.map fun c => .power (t.nesting c).loopDepth) =
      .power (t.nestingOf ids).loopDepth := by
  induction ids with
  | nil => rfl
  | cons c ids ih =>
    have hcons : t.nestingOf (c :: ids) = t.nesting c ++ t.nestingOf ids := rfl
    rw [hcons, Nesting.loopDepth_append, List.map_cons, Cost.sum, List.foldr_cons, ← Cost.sum, ih]
    rfl

/-- Without calls, the time of a node is the power with the depth of its loops. -/
theorem timeAt_eq_loopDepth (ht : t.Arranged) (hno : ∀ u, (t.kind u).functionName? = none)
    (id : Nat) : t.timeAt id = (Cost.power (t.nesting id).loopDepth).time := by
  induction id using t.induction with
  | step id ih =>
    by_cases hs : (t.kind id).isScope
    · have hparts : ((t.children id).map t.timeAt).foldl TimeBound.dominant .constant =
          (Cost.power (t.nestingOf (t.children id)).loopDepth).time := by
        rw [foldl_timeAt ih, sum_loopDepth]
      rw [timeAt_of_isScope hs, hparts, nesting_eq]
      cases hk : t.kind id with
      | loop form header =>
        have hl : (NodeKind.loop form header).isLoop = true := rfl
        rw [if_pos hl, ← Cost.time_raise_one, NodeKind.nest, Nesting.loopDepth,
          Nesting.loopDepth, Nat.max_zero]
        rfl
      | conditional =>
        rw [NodeKind.nest, Nesting.loopDepth, Nesting.loopDepth, Nat.max_zero]
        rfl
      | program | block | functionDeclaration => rfl
      | _ =>
        rw [hk] at hs
        cases hs
    · have hcall : ∀ name, t.kind id ≠ .functionCall name ∧ t.kind id ≠ .recursiveCall name := by
        intro name
        have hname := hno id
        constructor
        · intro hk
          rw [hk] at hname
          cases hname
        · intro hk
          rw [hk] at hname
          cases hname
      rw [timeAt_of_not_isScope hs,
        ownCost_of_no_call (fun name => (hcall name).1) fun name => (hcall name).2,
        nesting_of_not_isScope ht (Bool.eq_false_iff.2 hs)]
      rfl

/-! ## Memory without functions -/

theorem functionName?_of_collect (h : t.collect NodeKind.functionName? = []) (u : Nat) :
    (t.kind u).functionName? = none := by
  rcases Nat.lt_or_ge u t.size with hlt | hge
  · exact List.filterMap_eq_nil_iff.1 h u (List.mem_range.2 hlt)
  · rw [kind_of_size_le hge]
    rfl

/-- The degrees of all that takes memory, in the order of the numbers. -/
theorem map_degree_allocations (t : SyntaxTree) :
    t.allocations.map Allocation.degree = t.collect NodeKind.degree? :=
  List.map_filterMap ..

/-- Without functions the bound is that of the greatest degree. -/
theorem exists_space_bound (ht : t.Arranged) (hno : ∀ u, (t.kind u).functionName? = none) :
    ∃ s, t.space = .ok s ∧ s.recursive = false ∧ ∃ m, s.bound = .polynomial m ∧
      IsGreatest {d | d = 0 ∨ d ∈ t.allocations.map Allocation.degree} m := by
  have hnot : ¬ t.Reenters := by
    rintro ⟨u, name, hn, -⟩
    rw [hno u] at hn
    cases hn
  obtain ⟨m, hm, hgreatest⟩ := exists_bound_of_not_reenters ht hnot
  refine ⟨_, space_eq ht, Bool.eq_false_iff.2 fun hr => ?_, m, hm, ?_⟩
  · exact hnot ((reentry_mem_root_iff ht).1 ((SpaceBound.recursive_ofAllocations _).1 hr))
  · simpa only [List.mem_map, eq_comm] using hgreatest

end SyntaxTree

/-! ## Programs -/

namespace Program

variable {g : Grammar} {d : Dialect}

theorem ofRank_functionName? : OfRank NodeKind.functionName? fun _ => none := by
  constructor <;> intros <;> rfl

theorem ofRank_degree? : OfRank NodeKind.degree? fun n => some n.toUInt32 := by
  constructor <;> intros <;> rfl

/-- The tree of a program, as far as it does not depend on the headers of do-loops. -/
theorem exists_tree (p : Program d.grammar) :
    ∃ t t' : SyntaxTree, SyntaxTree.ofTokens d p.tokens = .ok t ∧ t.bare = t'.bare ∧
      t'.Grown p.forest ∧ t.unclosedScopes = 0 := by
  let s : Spine := (Spine.root .nil).add p.forest
  obtain ⟨t, ht, hbare⟩ := (Passes.program p (.root .nil)).exists_tree
  have hforest : s.forest = p.forest := Forest.append_nil _
  refine ⟨t, s.builder.finish, ht, hbare, hforest ▸ s.grown_finish, ?_⟩
  have hscopes : s.builder.scopes.length = 0 := s.length_scopes
  have hunclosed : t.unclosedScopes = s.builder.finish.unclosedScopes :=
    congrArg (·.unclosedScopes) hbare
  exact hunclosed.trans hscopes

theorem collect_tree {α : Type} {f : NodeKind → Option α} {r : Nat → Option α} {t t' : SyntaxTree}
    {p : Program g} (h : OfRank f r) (hprogram : f .program = none) (hbare : ∀ k, f k.bare = f k)
    (halike : t.bare = t'.bare) (hgrown : t'.Grown p.forest) :
    t.collect f = p.ranks.filterMap r := by
  rw [SyntaxTree.collect_alike hbare halike, hgrown.collect_eq, hprogram, collect_forest h]
  rfl

/-- Every program is read, with all scopes closed and nested as its statements are. Its time has
the depth of its loops, cut off at three; its memory has the greatest rank of its arrays, in 32
bits. -/
theorem bounds_ofTokens (d : Dialect) (p : Program d.grammar) :
    ∃ t, SyntaxTree.ofTokens d p.tokens = .ok t ∧ t.unclosedScopes = 0 ∧
      t.nesting 0 = p.nesting ∧
      t.time = .ok (.known (.polynomial (min 3 p.nesting.loopDepth).toUInt32)) ∧
      ∃ s, t.space = .ok s ∧ s.recursive = false ∧
        ∃ m, s.bound = .polynomial m ∧ IsGreatest (Nat.toUInt32 '' {n | n = 0 ∨ n ∈ p.ranks}) m ∧
          ((∀ n ∈ p.ranks, n < 2 ^ 32) → IsGreatest {n | n = 0 ∨ n ∈ p.ranks} m.toNat) := by
  obtain ⟨t, t', hread, halike, hgrown, hclosed⟩ := exists_tree p
  have ht := SyntaxTree.arranged_ofTokens hread
  have hnesting : t.nesting 0 = p.nesting := by
    rw [SyntaxTree.nesting_alike halike, hgrown.nesting_root, nesting_forest]
  have hno : ∀ u, (t.kind u).functionName? = none := by
    refine SyntaxTree.functionName?_of_collect ?_
    rw [collect_tree ofRank_functionName? rfl NodeKind.functionName?_bare halike hgrown]
    exact List.filterMap_eq_nil_iff.2 fun _ _ => rfl
  have hdegrees : t.allocations.map Allocation.degree = p.ranks.map Nat.toUInt32 := by
    rw [SyntaxTree.map_degree_allocations, collect_tree ofRank_degree? rfl
      (NodeKind.apply_bare NodeKind.degree? fun _ => rfl) halike hgrown]
    exact congrFun List.filterMap_eq_map _
  have hset : {m | m = 0 ∨ m ∈ p.ranks.map Nat.toUInt32} =
      Nat.toUInt32 '' {n | n = 0 ∨ n ∈ p.ranks} := by
    ext m
    simp [List.mem_map, or_and_right, exists_or, eq_comm]
  have htime : t.time = .ok (.known (.polynomial (min 3 p.nesting.loopDepth).toUInt32)) := by
    rw [SyntaxTree.time_eq ht, SyntaxTree.timeAt_eq_loopDepth ht hno, hnesting]
    rfl
  obtain ⟨s, hspace, hrecursive, m, hm, hgreatest⟩ := SyntaxTree.exists_space_bound ht hno
  rw [hdegrees, hset] at hgreatest
  refine ⟨t, hread, hclosed, hnesting, htime, s, hspace, hrecursive, m, hm, hgreatest, ?_⟩
  intro hranks
  refine SyntaxTree.isGreatest_toNat ?_ hgreatest
  rintro n (rfl | hn)
  · decide
  · exact hranks n hn

/-- The bounds of a text with a loop and an array. -/
theorem bounds_ofTokens_doLoop :
    ∃ t, SyntaxTree.ofTokens { grammar := .cLike }
        (Grammar.tokenize .cLike "do \x7b int a[n]; \x7d while (n);") = .ok t ∧
      t.unclosedScopes = 0 ∧ t.time = .ok (.known .linear) ∧
      ∃ s m, t.space = .ok s ∧ s.bound = .polynomial m ∧
        IsGreatest {n | n = 0 ∨ n ∈ [1]} m.toNat := by
  have htokens : Grammar.tokenize .cLike "do \x7b int a[n]; \x7d while (n);" =
      [key "do", mark "\x7b", key "int", ⟨.identifier, "a"⟩, mark "[", ⟨.identifier, "n"⟩, mark "]",
        mark ";", mark "\x7d", key "while", mark "(", ⟨.identifier, "n"⟩, mark ")", mark ";"] := by
    cbv
  have ha : Token.Scanned .cLike ⟨.identifier, "a"⟩ := ⟨_, by rw [htokens]; decide⟩
  have hn : Token.Scanned .cLike ⟨.identifier, "n"⟩ := ⟨_, by rw [htokens]; decide⟩
  let n : Phrase .cLike := ⟨[⟨.identifier, "n"⟩], by simpa using .inl ⟨hn, .inl rfl⟩⟩
  let p : Program .cLike :=
    .doLoop (.array ⟨"int", by decide⟩ ⟨"a", ha⟩ n [] .nil) n .nil
  obtain ⟨t, hread, hclosed, -, htime, s, hspace, -, m, hm, -, hgreatest⟩ :=
    bounds_ofTokens { grammar := .cLike } p
  have hranks : ∀ n ∈ [1], n < 2 ^ 32 := by decide
  rw [htokens]
  exact ⟨t, hread, hclosed, htime, s, m, hspace, hm, hgreatest hranks⟩

end Program

end GrowthOrder
