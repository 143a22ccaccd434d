import Mathlib
import GrowthOrder.Proofs.Construct.Extent
import GrowthOrder.Proofs.Draft.Moves
import GrowthOrder.Proofs.Draft.Run
import GrowthOrder.Proofs.Token.Kinds

/-!
# Trailers of do-loops

Behind the brace that closes the body of a do-loop, `while` begins no loop of its own but the
trailer of the do-loop. Which do-loop that is was noted when a brace last closed a scope, and
whether a brace stands right before is seen from the token. The two agree as long as the token is
the brace that was read last. A positional header takes its tokens whatever they are, so a brace can
also be the last token of such a header; then `while` is taken for the trailer of a do-loop that was
closed before that loop began.
-/
namespace GrowthOrder

namespace Cursor

/-- The step reads a closing brace, which closes the scope `id`. -/
structure Closes (d : Dialect) (r s : Cursor) (id : Nat) : Prop where
  step : Step d r s
  brace : ∃ b, b.is "\x7d" ∧ s.done = r.done ++ [b]
  scopes : r.draft.builder.scopes = id :: s.draft.builder.scopes

/-- The step reads `while` and opens no scope. -/
structure Absorbs (d : Dialect) (s s' : Cursor) : Prop where
  keyword : s.rest.head? = some ⟨.keyword, "while"⟩
  step : Step d s s'
  scopes : s'.draft.builder.scopes = s.draft.builder.scopes

/-- What was read last is the keyword of a loop with the tokens of a positional header. -/
def BehindHeader (r s : Cursor) : Prop :=
  (∃ a b c, s.done = r.done ++ [⟨.keyword, "for"⟩, a, b, c]) ∨
    ∃ a, s.done = r.done ++ [⟨.keyword, "while"⟩, a]

variable {d : Dialect} {tokens : List Token} {r s s' : Cursor} {id : Nat}

/-- A brace closes the innermost scope. -/
theorem closes_of_close {done rest : List Token} {t : Token} {x y : Draft} {n : Nat}
    (hread : Construct.read d done.getLast? t rest = (.close, n)) (hadd : x.add .close = .ok y)
    (hclosed : y.lastClosed = some id) :
    Closes d ⟨done, x, t :: rest⟩ ⟨done ++ t :: rest.take n, y, rest.drop n⟩ id := by
  obtain ⟨z, hz, hbuilder, hlast⟩ := Draft.add_close x
  obtain rfl := Except.ok.inj (hadd.symm.trans hz)
  rw [hlast] at hclosed
  have hscopes : y.builder.scopes = x.builder.scopes.tail := by
    rw [hbuilder, Builder.leave_eq]
    rfl
  refine ⟨.read hread hadd, ?_, ?_⟩
  · cases Construct.reads_of_read_eq hread with
    | close ht => exact ⟨t, ht, rfl⟩
    | ordinary hordinary _ => exact hordinary.elim
  · show x.builder.scopes = id :: y.builder.scopes
    rw [hscopes]
    exact List.eq_cons_of_mem_head? hclosed

/-- A scope that is noted as closed was closed by a brace that was read before. -/
theorem Reached.exists_closes (hs : Reached d tokens s) (hid : s.draft.lastClosed = some id) :
    ∃ r q, Reached d tokens r ∧ Closes d r q id ∧ Relation.ReflTransGen (Step d) q s := by
  induction hs with
  | refl => cases hid
  | @tail q s hq hstep ih =>
    cases hstep with
    | @read done rest t x y c n hread hadd =>
      have hkept : y.lastClosed = x.lastClosed → ∃ r q, Reached d tokens r ∧ Closes d r q id ∧
          Relation.ReflTransGen (Step d) q ⟨done ++ t :: rest.take n, y, rest.drop n⟩ := by
        intro heq
        obtain ⟨r, q, hr, hcloses, hrun⟩ := ih (heq ▸ hid)
        exact ⟨r, q, hr, hcloses, hrun.tail (.read hread hadd)⟩
      rcases Draft.add_cases hadd with
        ⟨F, -, rfl⟩ | ⟨kind, label, -, rfl⟩ | ⟨rfl, -, -⟩ | ⟨_, _, _, -, -, -, hnone⟩
      · exact hkept rfl
      · exact hkept rfl
      · exact ⟨_, _, hq, closes_of_close hread hadd hid, .refl⟩
      · cases hnone.symm.trans hid

theorem read_while (d : Dialect) (previous : Option Token) (rest : List Token) :
    Construct.read d previous ⟨.keyword, "while"⟩ rest =
      (.whileLoop "while" (previous.any (·.is "\x7d"))
        (Condition.read d.grammar.headerStyle rest).1,
        (Condition.read d.grammar.headerStyle rest).2) := by
  have haction : d.grammar.action? "while" = some .whileLoop := by
    cases d.grammar <;> rfl
  unfold Construct.read
  dsimp only
  rw [haction]
  rfl

/-- A `while` that opens no scope is read as the trailer of the do-loop noted last. -/
theorem Absorbs.trailer (h : Absorbs d s s') : ∃ id header condition,
    s.done.getLast?.any (·.is "\x7d") ∧ s.draft.lastClosed = some id ∧
      s.draft.builder.tree.kind id = .loop .doWhile header ∧
      s.draft.addTrailer id condition = .ok s'.draft := by
  obtain ⟨hkeyword, hstep, hscopes⟩ := h
  cases hstep with
  | @read done rest t x y c n hread hadd =>
    obtain rfl : t = ⟨.keyword, "while"⟩ := Option.some.inj hkeyword
    rw [read_while] at hread
    obtain ⟨rfl, rfl⟩ := Prod.mk.inj hread
    rw [Draft.add] at hadd
    split at hadd
    · next id hpending =>
      obtain ⟨hbrace, hclosed, header, hkind⟩ := Draft.kind_of_pendingDo? hpending
      exact ⟨id, header, _, hbrace, hclosed, hkind, hadd⟩
    · -- a loop of its own would be one more open scope
      exfalso
      have hlength := congrArg List.length hscopes
      cases hcondition : (Condition.read d.grammar.headerStyle rest).1 with
      | cut =>
        rw [hcondition] at hadd
        cases hadd
      | unread | token text =>
        rw [hcondition] at hadd
        cases hadd
        exact absurd hlength (Nat.succ_ne_self _)

/-- A trailer changes the do-loop to which it belongs and nothing else. -/
theorem nodes_of_addTrailer {x y : Draft} {condition : Condition}
    (h : x.addTrailer id condition = .ok y) {u : Nat} (hu : u ≠ id) :
    y.builder.tree.nodes[u]? = x.builder.tree.nodes[u]? := by
  cases condition with
  | unread =>
    cases h
    rfl
  | token text =>
    cases h
    show (x.builder.tree.amend id _ _).nodes[u]? = _
    rw [SyntaxTree.getElem?_amend, if_neg (Ne.symm hu)]
  | cut => cases h

theorem positional_of_read {rest : List Token} {header : ForHeader} {n : Nat}
    (h : ForHeader.read .positional rest = (header, n)) (hlt : n < rest.length) :
    ∃ a b c, rest.take n = [a, b, c] := by
  match rest with
  | [] | [_] | [_, _] =>
    obtain rfl : _ = n := (Prod.mk.inj h).2
    exact absurd hlt (Nat.lt_irrefl _)
  | a :: b :: c :: _ =>
    obtain rfl : 3 = n := (Prod.mk.inj h).2
    exact ⟨a, b, c, rfl⟩

/-- A brace right before the next token was read as a brace, or it is no separator, or it is the
last token of a positional header. -/
theorem last_of_step {brace : Token} (h : Step d r s) (hrest : s.rest ≠ [])
    (hlast : s.done.getLast? = some brace) (hbrace : brace.is "\x7d")
    (hid : s.draft.lastClosed = some id) :
    Closes d r s id ∨ brace.kind ≠ .separator ∨ d.grammar = .cLike ∧ BehindHeader r s := by
  cases h with
  | @read done rest t x y c n hread hadd =>
    have hlt : n < rest.length := Nat.not_le.1 fun hle => hrest (List.drop_eq_nil_iff.2 hle)
    have hclear : EndsClear (t :: rest) (n + 1) → brace.kind ≠ .separator := by
      intro hends
      refine hends (Nat.succ_lt_succ hlt) brace ?_ hbrace
      rw [← hlast]
      show (t :: rest.take n).getLast? = (done ++ t :: rest.take n).getLast?
      rw [List.getLast?_append, List.getLast?_cons, Option.some_or]
    cases Construct.reads_of_read_eq hread with
    | close ht => exact .inl (closes_of_close hread hadd hid)
    | ordinary _ hends => exact .inr (.inl (hclear hends))
    | forLoop ht hheader =>
      subst ht
      cases hg : d.grammar with
      | cLike =>
        rw [hg] at hheader
        obtain ⟨a, b, c, htake⟩ := positional_of_read hheader hlt
        exact .inr (.inr ⟨rfl, .inl ⟨a, b, c, by rw [htake]⟩⟩)
      | javaLike =>
        rw [hg] at hheader
        have hends := ForHeader.endsClear_read rest
        rw [show ForHeader.read .structured rest = _ from hheader] at hends
        exact .inr (.inl (hclear (.cons (Token.noBrace_of_kind rfl (by decide)) hends)))
    | whileLoop ht hcondition =>
      subst ht
      cases hg : d.grammar with
      | cLike =>
        rw [hg] at hcondition
        cases rest with
        | nil => exact absurd hlt (Nat.not_lt_zero n)
        | cons a rest =>
          obtain rfl : 1 = n := (Prod.mk.inj hcondition).2
          exact .inr (.inr ⟨rfl, .inr ⟨a, rfl⟩⟩)
      | javaLike =>
        rw [hg] at hcondition
        obtain rfl : 0 = n := (Prod.mk.inj hcondition).2
        exact .inr (.inl (hclear (.cons (Token.noBrace_of_kind rfl (by decide)) (.zero _))))

/-- A `while` that opens no scope stands right behind a closing brace, and a do-loop that a brace
closed before is all that it changes. It is that very brace which closed the do-loop, unless the
brace was taken by a positional header or is a token of no source text. -/
theorem absorbs_behind_brace (hs : Reached d tokens s) (h : Absorbs d s s') :
    ∃ id brace, s.done.getLast? = some brace ∧ brace.is "\x7d" ∧
      (∃ header, s.draft.builder.tree.kind id = .loop .doWhile header) ∧
      (∀ u, u ≠ id → s'.draft.builder.tree.nodes[u]? = s.draft.builder.tree.nodes[u]?) ∧
      (∃ r q, Reached d tokens r ∧ Closes d r q id ∧ Relation.ReflTransGen (Step d) q s) ∧
      ((∃ r, Reached d tokens r ∧ Closes d r s id) ∨ ¬ brace.Scanned d.grammar ∨
        d.grammar = .cLike ∧ ∃ r, Reached d tokens r ∧ Step d r s ∧ BehindHeader r s) := by
  obtain ⟨id, header, condition, hany, hid, hkind, hadd⟩ := h.trailer
  obtain ⟨brace, hlast, hbrace⟩ := (Option.any_eq_true ..).1 hany
  have hrest : s.rest ≠ [] := by
    intro hnil
    have hkeyword := h.keyword
    rw [hnil] at hkeyword
    cases hkeyword
  refine ⟨id, brace, hlast, hbrace, ⟨header, hkind⟩, fun u hu => nodes_of_addTrailer hadd hu,
    hs.exists_closes hid, ?_⟩
  rcases hs.cases_tail with hstart | ⟨r, hr, hstep⟩
  · rw [hstart] at hlast
    cases hlast
  · rcases last_of_step hstep hrest hlast hbrace hid with hcloses | hkind | ⟨hg, hbehind⟩
    · exact .inl ⟨r, hr, hcloses⟩
    · refine .inr (.inl fun hscanned => hkind (hscanned.kind_of_mem_grouping ?_))
      rw [beq_iff_eq.1 hbrace]
      decide
    · exact .inr (.inr ⟨hg, r, hr, hstep, hbehind⟩)

theorem exists_of_after? {α : Type} {n : Nat} {f : Cursor → Cursor → Cursor → α} {a : α}
    (h : (((start tokens).after? d n).bind fun r => (r.next? d).bind fun s =>
      (s.next? d).map (f r s)) = some a) :
    ∃ r s s', Reached d tokens r ∧ Step d r s ∧ Step d s s' ∧ f r s s' = a := by
  obtain ⟨r, hr, h⟩ := Option.bind_eq_some_iff.1 h
  obtain ⟨s, hs, h⟩ := Option.bind_eq_some_iff.1 h
  obtain ⟨s', hs', rfl⟩ := Option.map_eq_some_iff.1 h
  exact ⟨r, s, s', run_of_after? hr, step_of_next? hs, step_of_next? hs', rfl⟩

theorem absorbs_behind_brace_doLoop : ∃ s s', Reached { grammar := .cLike }
      (Grammar.tokenize .cLike "do \x7b \x7d while (x);") s ∧ Absorbs { grammar := .cLike } s s' ∧
    ∃ (id : Nat) (brace : Token), s.done.getLast? = some brace ∧ brace.is "\x7d" ∧
      ∀ u, u ≠ id → s'.draft.builder.tree.nodes[u]? = s.draft.builder.tree.nodes[u]? := by
  have heval : (((start (Grammar.tokenize .cLike "do \x7b \x7d while (x);")).after?
      { grammar := .cLike } 2).bind fun r => (r.next? { grammar := .cLike }).bind fun s =>
        (s.next? { grammar := .cLike }).map fun s' =>
          (s.rest.head?, s'.draft.builder.scopes, s.draft.builder.scopes)) =
      some (some ⟨.keyword, "while"⟩, [], []) := by cbv
  obtain ⟨r, s, s', hr, hrs, hs, hvalues⟩ := exists_of_after? heval
  simp only [Prod.mk.injEq] at hvalues
  obtain ⟨hkeyword, hafter, hbefore⟩ := hvalues
  have habsorbs : Absorbs { grammar := .cLike } s s' := ⟨hkeyword, hs, hafter.trans hbefore.symm⟩
  obtain ⟨id, brace, hlast, hbrace, -, hnodes, -⟩ := absorbs_behind_brace (hr.tail hrs) habsorbs
  exact ⟨s, s', hr.tail hrs, habsorbs, id, brace, hlast, hbrace, hnodes⟩

/-- A brace at the end of a positional header closes nothing, and a `while` behind it is still taken
for the trailer of a do-loop that was closed before. -/
theorem absorbs_behind_header : ∃ s s', Reached { grammar := .cLike }
      (Grammar.tokenize .cLike "do \x7b \x7d for a b \x7d while (x) \x7b \x7d") s ∧
    Absorbs { grammar := .cLike } s s' ∧
    ¬ ∃ r id, Reached { grammar := .cLike }
        (Grammar.tokenize .cLike "do \x7b \x7d for a b \x7d while (x) \x7b \x7d") r ∧
      Closes { grammar := .cLike } r s id := by
  have heval : (((start (Grammar.tokenize .cLike
      "do \x7b \x7d for a b \x7d while (x) \x7b \x7d")).after? { grammar := .cLike } 3).bind
        fun r => (r.next? { grammar := .cLike }).bind fun s =>
          (s.next? { grammar := .cLike }).map fun s' => (s.rest.head?,
            s'.draft.builder.scopes, s.draft.builder.scopes, r.done.length, s.done.length)) =
      some (some ⟨.keyword, "while"⟩, [4], [4], 3, 7) := by cbv
  obtain ⟨r, s, s', hr, hrs, hs, hvalues⟩ := exists_of_after? heval
  simp only [Prod.mk.injEq] at hvalues
  obtain ⟨hkeyword, hafter, hbefore, hrlength, hslength⟩ := hvalues
  refine ⟨s, s', hr.tail hrs, ⟨hkeyword, hs, hafter.trans hbefore.symm⟩, ?_⟩
  rintro ⟨r', id, hr', hcloses⟩
  obtain rfl := Reached.source_unique hr hr' hrs hcloses.step
  obtain ⟨brace, -, hdone⟩ := hcloses.brace
  have hlength := congrArg List.length hdone
  rw [List.length_append, List.length_singleton, hrlength, hslength] at hlength
  omega

end Cursor

end GrowthOrder
