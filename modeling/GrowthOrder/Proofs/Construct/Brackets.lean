import GrowthOrder.Construct.Read

/-!
# Groups of brackets

A group begins with an opening bracket and ends with the first closing one; an opening bracket in
between is a token like any other, and there may be nothing in between. Reading dimensions and
looking ahead for a semicolon both pass over groups one at a time. Dimensions are read of whatever
comes, the last of them up to the end of the tokens if no bracket closes it. Looking ahead succeeds
exactly if there are only groups before the semicolon.
-/
namespace GrowthOrder

theorem Token.is_eq_false_of_is {t : Token} {text other : String} (h : t.is text)
    (hne : text ≠ other) : t.is other = false := by
  rw [is, beq_iff_eq.1 h]
  exact beq_false_of_ne hne

theorem nextIs_eq_false_of_nextIs {ts : List Token} {text other : String} (h : nextIs ts text)
    (hne : text ≠ other) : nextIs ts other = false := by
  cases ts with
  | nil => rfl
  | cons t rest => exact Token.is_eq_false_of_is h hne

/-- A pair of brackets and the tokens between them. -/
structure BracketGroup where
  opening : Token
  inside : List Token
  closing : Token
  opening_is : opening.is "["
  inside_is : ∀ t ∈ inside, t.is "]" = false
  closing_is : closing.is "]"

namespace BracketGroup

def tokens (g : BracketGroup) : List Token :=
  g.opening :: (g.inside ++ [g.closing])

def dimension (g : BracketGroup) : Dimension :=
  .ofTokens g.inside

theorem length_tokens (g : BracketGroup) : g.tokens.length = g.inside.length + 2 := by
  rw [tokens, List.length_cons, List.length_append, List.length_singleton]

theorem tokens_append (g : BracketGroup) (ts : List Token) :
    g.tokens ++ ts = g.opening :: (g.inside ++ g.closing :: ts) := by
  rw [tokens, List.cons_append, List.append_assoc, List.singleton_append]

/-- A group and what stands behind it. -/
theorem flatMap_cons_append (g : BracketGroup) (groups : List BracketGroup) (ts : List Token) :
    (g :: groups).flatMap tokens ++ ts =
      g.opening :: (g.inside ++ g.closing :: (groups.flatMap tokens ++ ts)) := by
  rw [List.flatMap_cons, List.append_assoc, tokens_append]

theorem flatMap_ne_nil {groups : List BracketGroup} (h : groups ≠ []) :
    groups.flatMap tokens ≠ [] := by
  cases groups with
  | nil => exact absurd rfl h
  | cons g groups =>
    rw [List.flatMap_cons, tokens]
    exact List.cons_ne_nil _ _

theorem getLast?_flatMap {groups : List BracketGroup} (h : groups ≠ []) :
    (groups.flatMap tokens).getLast?.any (·.is "]") := by
  obtain ⟨front, g, rfl⟩ : ∃ front g, groups = front ++ [g] :=
    ⟨_, _, (List.dropLast_concat_getLast h).symm⟩
  rw [List.flatMap_append, List.flatMap_singleton, tokens, List.getLast?_append,
    List.getLast?_cons, List.getLast?_concat]
  exact g.closing_is

end BracketGroup

namespace Subscript

variable {ts rest : List Token}

theorem inside_group (g : BracketGroup) (ts : List Token) :
    inside (g.inside ++ g.closing :: ts) = g.inside := by
  rw [inside, List.takeWhile_append_of_pos fun t ht => by simp [g.inside_is t ht],
    List.takeWhile_cons_of_neg (by simp [g.closing_is]), List.append_nil]

theorem drop_group (g : BracketGroup) (ts : List Token) :
    (g.inside ++ g.closing :: ts).drop (g.inside.length + 1) = ts := by
  rw [← List.drop_drop, List.drop_left, List.drop_one, List.tail_cons]

theorem length_inside_lt (g : BracketGroup) (ts : List Token) :
    g.inside.length + 1 ≤ (g.inside ++ g.closing :: ts).length := by
  rw [List.length_append, List.length_cons]
  omega

theorem is_eq_false_of_mem_inside {t : Token} (h : t ∈ inside ts) : t.is "]" = false := by
  have hall := List.all_eq_true.1 List.all_takeWhile t h
  simpa using hall

/-- What is inside is all there is, or ends before a closing bracket. -/
theorem inside_cases (ts : List Token) : inside ts = ts ∨
    ∃ closing after, closing.is "]" ∧ inside ts ++ closing :: after = ts := by
  have hsplit : inside ts ++ ts.dropWhile (fun t => !t.is "]") = ts :=
    List.takeWhile_append_dropWhile
  cases hafter : ts.dropWhile fun t => !t.is "]" with
  | nil =>
    rw [hafter, List.append_nil] at hsplit
    exact .inl hsplit
  | cons closing after =>
    have hclosing : closing.is "]" := by
      have hhead := List.head?_dropWhile_not (fun t : Token => !t.is "]") ts
      rw [hafter] at hhead
      simpa using hhead
    exact .inr ⟨closing, after, hclosing, hafter ▸ hsplit⟩

/-- An opening bracket begins a group, unless all that follows is inside. -/
theorem exists_group {t : Token} (ht : t.is "[") (h : (inside rest).length + 1 ≤ rest.length) :
    ∃ g : BracketGroup, t :: rest = g.tokens ++ rest.drop ((inside rest).length + 1) := by
  rcases inside_cases rest with hall | ⟨closing, after, hclosing, hsplit⟩
  · rw [hall] at h
    exact absurd h (Nat.not_succ_le_self _)
  · let g : BracketGroup :=
      ⟨t, inside rest, closing, ht, fun _ => is_eq_false_of_mem_inside, hclosing⟩
    have hdrop : rest.drop ((inside rest).length + 1) = after :=
      calc rest.drop ((inside rest).length + 1)
          = (g.inside ++ g.closing :: after).drop (g.inside.length + 1) := by rw [hsplit]
        _ = after := drop_group g after
    refine ⟨g, ?_⟩
    rw [hdrop, g.tokens_append, hsplit]

/-! ## Reading dimensions -/

theorem dimensions_of_not_bracket (h : nextIs ts "[" = false) : dimensions ts = ([], 0) := by
  cases ts with
  | nil => rw [dimensions]
  | cons t rest =>
    have ht : t.is "[" = false := h
    rw [dimensions, ht]
    rfl

/-- Every group is a dimension, up to the first token that begins no group. -/
theorem dimensions_groups (groups : List BracketGroup) (h : nextIs ts "[" = false) :
    dimensions (groups.flatMap BracketGroup.tokens ++ ts) =
      (groups.map BracketGroup.dimension, (groups.flatMap BracketGroup.tokens).length) := by
  induction groups with
  | nil => exact dimensions_of_not_bracket h
  | cons g groups ih =>
    rw [BracketGroup.flatMap_cons_append, dimensions, if_pos g.opening_is, inside_group]
    dsimp only
    rw [Nat.min_eq_left (length_inside_lt g _), drop_group, ih, List.flatMap_cons,
      List.length_append, g.length_tokens, Nat.add_comm 1]
    rfl

/-! ## Looking ahead -/

/-- Groups are counted and passed over. -/
theorem groups?_groups (groups : List BracketGroup) (ts : List Token) :
    groups? (groups.flatMap BracketGroup.tokens ++ ts) = (groups? ts).map (· + groups.length) := by
  induction groups with
  | nil => exact Option.map_id'.symm
  | cons g groups ih =>
    rw [BracketGroup.flatMap_cons_append, groups?, if_pos g.opening_is, inside_group]
    dsimp only
    rw [if_pos (length_inside_lt g _), drop_group, ih, Option.map_map]
    rfl

theorem groups?_semicolon {semicolon : Token} (h : semicolon.is ";") (after : List Token) :
    groups? (semicolon :: after) = some 0 := by
  rw [groups?, Token.is_eq_false_of_is h (by decide), h]
  rfl

/-- Looking ahead finds as many groups as there are before a semicolon. -/
theorem groups?_eq_some_iff {n : Nat} : groups? ts = some n ↔
    ∃ (groups : List BracketGroup) (semicolon : Token) (after : List Token),
      groups.length = n ∧ semicolon.is ";" ∧
        ts = groups.flatMap BracketGroup.tokens ++ semicolon :: after := by
  constructor
  · intro h
    fun_induction groups? ts generalizing n with
    | case1 => cases h
    | case2 t rest hopen taken htaken =>
      rename_i ih
      obtain ⟨m, hm, rfl⟩ := Option.map_eq_some_iff.1 h
      obtain ⟨groups, semicolon, after, rfl, hsemicolon, hrest⟩ := ih hm
      obtain ⟨g, hg⟩ := exists_group hopen htaken
      refine ⟨g :: groups, semicolon, after, rfl, hsemicolon, ?_⟩
      rw [hg, List.flatMap_cons, List.append_assoc, ← hrest]
    | case3 => cases h
    | case4 t rest hopen hend =>
      cases h
      exact ⟨[], t, rest, rfl, hend, rfl⟩
    | case5 => cases h
  · rintro ⟨groups, semicolon, after, rfl, hsemicolon, rfl⟩
    rw [groups?_groups, groups?_semicolon hsemicolon, Option.map_some, Nat.zero_add]

theorem endsStatement_of_not_bracket (h : nextIs ts "[" = false) : endsStatement ts = false := by
  cases ts with
  | nil => simp [endsStatement, groups?]
  | cons t ts =>
    have ht : t.is "[" = false := h
    rw [endsStatement, groups?, ht]
    by_cases hs : t.is ";" = true
    · simp [hs]
    · simp [hs]

theorem nextIs_of_endsStatement (h : endsStatement ts) : nextIs ts "[" := by
  cases hnext : nextIs ts "[" with
  | true => rfl
  | false =>
    rw [endsStatement_of_not_bracket hnext] at h
    cases h

theorem endsStatement_iff : endsStatement ts ↔ ∃ n, groups? ts = some n ∧ 0 < n := by
  rw [endsStatement]
  cases groups? ts <;> simp

end Subscript

end GrowthOrder
