import GrowthOrder.Report
import GrowthOrder.Proofs.Construct.Extent
import GrowthOrder.Proofs.Draft.Run
import GrowthOrder.Proofs.Space.Allocations
import GrowthOrder.Proofs.Time.Calls

/-!
# Where reading can fail

The only construct that cannot be added is a loop whose header is cut off by the end of the tokens,
so every error is about the last loop of the stream. A positional header lacks one of its few
tokens; a structured one was opened and has neither its closing parenthesis nor all its semicolons.
A tree that was read has both bounds, so nothing fails after reading.
-/
namespace GrowthOrder

/-- The tokens outside all parentheses, `level` being the number of parentheses that are open. -/
def outermost : Int → List Token → List Token
  | _, [] => []
  | level, t :: rest =>
    let next := if t.is "(" then level + 1 else if t.is ")" then level - 1 else level
    if level = 0 then t :: outermost next rest else outermost next rest

/-- The tokens end inside this part of a loop. -/
def BreaksOff (tokens : List Token) : Grammar → HeaderPart → Prop
  | .cLike, .forHeader => ⟨.keyword, "for"⟩ ∈ tokens.drop (tokens.length - 3)
  | .cLike, .whileCondition | .cLike, .doWhileCondition =>
    tokens.getLast? = some ⟨.keyword, "while"⟩
  | .javaLike, .forHeader =>
    ∃ before after, tokens = before ++ ⟨.keyword, "for"⟩ :: after ∧
      (after = [] ∨ ∃ paren rest, after = paren :: rest ∧ paren.is "(" ∧
        (∀ t ∈ outermost 0 rest, ¬ t.is ")") ∧ (outermost 0 rest).countP (·.is ";") ≤ 2)
  | .javaLike, .whileCondition | .javaLike, .doWhileCondition => False

/-! ## Headers that are cut off -/

namespace ForHeader

variable {ts : List Token} {depth n : Nat}

theorem level_eq {t : Token} (h : ¬ (depth = 0 ∧ (t.is ";" ∨ t.is ")"))) :
    ((if t.is "(" then depth + 1 else if t.is ")" then depth - 1 else depth : Nat) : Int) =
      if t.is "(" then (depth : Int) + 1 else if t.is ")" then (depth : Int) - 1 else depth := by
  split
  · omega
  · split
    · next hclose =>
      have hpos : depth ≠ 0 := fun hz => h ⟨hz, .inr hclose⟩
      omega
    · rfl

/-- A clause that does not end has neither a semicolon nor a closing parenthesis of its own. -/
theorem not_ends_of_clause_eq_none (h : clause depth ts = none) :
    ∀ t ∈ outermost depth ts, ¬ t.is ";" ∧ ¬ t.is ")" := by
  induction ts generalizing depth with
  | nil =>
    intro t ht
    cases ht
  | cons u rest ih =>
    rw [clause] at h
    split at h
    · cases h
    · next hends =>
      have hrest := ih (Option.map_eq_none_iff.1 h)
      rw [level_eq hends] at hrest
      intro t ht
      rw [outermost] at ht
      split at ht
      · next hzero =>
        rcases List.mem_cons.1 ht with rfl | ht
        · have hdepth : depth = 0 := by omega
          exact not_or.1 fun hor => hends ⟨hdepth, hor⟩
        · exact hrest t ht
      · exact hrest t ht

/-- A clause that ends with a semicolon has no other one of its own, and no closing parenthesis. -/
theorem outermost_of_clause {texts : List String} (h : clause depth ts = some (texts, false)) :
    ∃ inner semicolon, (∀ t ∈ inner, ¬ t.is ";" ∧ ¬ t.is ")") ∧ ¬ semicolon.is ")" ∧
      outermost depth ts = inner ++ semicolon :: outermost 0 (ts.drop (texts.length + 1)) := by
  induction ts generalizing depth texts with
  | nil => cases h
  | cons u rest ih =>
    rw [clause] at h
    split at h
    · next hends =>
      obtain ⟨rfl, hlast⟩ := Prod.mk.inj (Option.some.inj h)
      have hsemicolon : u.text = ";" := beq_iff_eq.1 (hends.2.resolve_right (by simp [hlast]))
      refine ⟨[], u, fun t ht => (by cases ht), by simp [hlast], ?_⟩
      rw [outermost]
      simp [Token.is, hsemicolon, hends.1]
    · next hends =>
      obtain ⟨⟨texts', last⟩, hrest, heq⟩ := Option.map_eq_some_iff.1 h
      cases heq
      obtain ⟨inner, semicolon, hinner, hsemicolon, houter⟩ := ih hrest
      rw [level_eq hends] at houter
      rw [outermost, List.length_cons, List.drop_succ_cons]
      split
      · next hzero =>
        have hu : ¬ u.is ";" ∧ ¬ u.is ")" := not_or.1 fun hor => hends ⟨by omega, hor⟩
        refine ⟨u :: inner, semicolon, ?_, hsemicolon, congrArg (u :: ·) houter⟩
        exact List.forall_mem_cons.2 ⟨hu, hinner⟩
      · exact ⟨inner, semicolon, hinner, hsemicolon, houter⟩

/-- Clauses that do not end: the closing parenthesis is not there, and too few semicolons are. -/
theorem outermost_of_clauses?_eq_none {most : Nat} (h : clauses? most ts = none) :
    (∀ t ∈ outermost 0 ts, ¬ t.is ")") ∧ (outermost 0 ts).countP (·.is ";") < most := by
  induction most generalizing ts with
  | zero => cases h
  | succ most ih =>
    cases hclause : clause 0 ts with
    | none =>
      have hends := not_ends_of_clause_eq_none hclause
      have hcount : (outermost 0 ts).countP (·.is ";") = 0 :=
        List.countP_eq_zero.2 fun t ht => (hends t ht).1
      exact ⟨fun t ht => (hends t ht).2, by omega⟩
    | some p =>
      obtain ⟨texts, last⟩ := p
      rw [clauses?, hclause] at h
      dsimp only [Option.bind_some] at h
      split at h
      · cases h
      · next hlast =>
        obtain rfl : last = false := Bool.eq_false_iff.2 hlast
        obtain ⟨inner, semicolon, hinner, hsemicolon, houter⟩ := outermost_of_clause hclause
        obtain ⟨hrest, hcount⟩ := ih (Option.map_eq_none_iff.1 h)
        have houter : outermost 0 ts = _ := houter
        have hzero : inner.countP (·.is ";") = 0 :=
          List.countP_eq_zero.2 fun t ht => (hinner t ht).1
        rw [houter]
        refine ⟨fun t ht => ?_, ?_⟩
        · rcases List.mem_append.1 ht with ht | ht
          · exact (hinner t ht).2
          · rcases List.mem_cons.1 ht with rfl | ht
            · exact hsemicolon
            · exact hrest t ht
        · rw [List.countP_append, List.countP_cons, hzero]
          split <;> omega

theorem length_of_read_eq_cut (h : read .positional ts = (cut, n)) : ts.length ≤ 2 := by
  match ts with
  | [] | [_] | [_, _] => exact Nat.le_of_lt_succ (by simp)
  | _ :: _ :: _ :: _ => cases h

theorem structured_of_read_eq_cut (h : read .structured ts = (cut, n)) :
    ts = [] ∨ ∃ paren rest, ts = paren :: rest ∧ paren.is "(" ∧ clauses? 3 rest = none := by
  cases ts with
  | nil => exact .inl rfl
  | cons paren rest =>
    rw [read] at h
    split at h
    · next hparen =>
      split at h
      · cases h
      · next hclauses => exact .inr ⟨paren, rest, rfl, hparen, hclauses⟩
    · cases h

end ForHeader

theorem Condition.of_read_eq_cut {style : HeaderStyle} {ts : List Token} {n : Nat}
    (h : read style ts = (cut, n)) : style = .positional ∧ ts = [] := by
  cases style with
  | structured => cases h
  | positional =>
    cases ts with
    | nil => exact ⟨rfl, rfl⟩
    | cons t rest => cases h

/-- The only errors are about headers that are cut off. -/
theorem Draft.cut_of_add_eq_error {x : Draft} {c : Construct} {e : AnalysisError}
    (h : x.add c = .error e) :
    (∃ label, c = .forLoop label .cut ∧ e = .endOfInput .forHeader) ∨
      ∃ label afterBrace part, c = .whileLoop label afterBrace .cut ∧ e = .endOfInput part ∧
        part ≠ .forHeader := by
  cases c with
  | forLoop label header =>
    cases header with
    | cut =>
      cases h
      exact .inl ⟨label, rfl, rfl⟩
    | positional | clauses | absent => cases h
  | whileLoop label afterBrace condition =>
    rw [add] at h
    split at h
    · cases condition with
      | cut =>
        cases h
        exact .inr ⟨label, afterBrace, .doWhileCondition, rfl, rfl, by decide⟩
      | unread | token => cases h
    · cases condition with
      | cut =>
        cases h
        exact .inr ⟨label, afterBrace, .whileCondition, rfl, rfl, by decide⟩
      | unread | token => cases h
  | leaf | scope | close | typedArray | bareArray | call => cases h

namespace BreaksOff

variable {g : Grammar} {done rest : List Token} {n : Nat}

/-- A header that is cut off is that of the last counting loop. -/
theorem of_forHeader (h : ForHeader.read g.headerStyle rest = (.cut, n)) :
    BreaksOff (done ++ ⟨.keyword, "for"⟩ :: rest) g .forHeader := by
  cases g with
  | cLike =>
    have hlength := ForHeader.length_of_read_eq_cut h
    show _ ∈ List.drop _ _
    rw [List.drop_append_of_le_length (by simp; omega)]
    exact List.mem_append_right _ List.mem_cons_self
  | javaLike =>
    refine ⟨done, rest, rfl, ?_⟩
    rcases ForHeader.structured_of_read_eq_cut h with hnil | ⟨paren, rest', heq, hparen, hnone⟩
    · exact .inl hnil
    · obtain ⟨hclose, hcount⟩ := ForHeader.outermost_of_clauses?_eq_none hnone
      exact .inr ⟨paren, rest', heq, hparen, hclose, Nat.le_of_lt_succ hcount⟩

/-- A condition that is cut off is that of a last token. -/
theorem of_condition {part : HeaderPart} (hpart : part ≠ .forHeader)
    (h : Condition.read g.headerStyle rest = (.cut, n)) :
    BreaksOff (done ++ ⟨.keyword, "while"⟩ :: rest) g part := by
  obtain ⟨hstyle, rfl⟩ := Condition.of_read_eq_cut h
  cases g with
  | javaLike => cases hstyle
  | cLike =>
    cases part with
    | forHeader => exact absurd rfl hpart
    | whileCondition | doWhileCondition => exact List.getLast?_concat

end BreaksOff

/-- A construct that cannot be added stands where the tokens break off. -/
theorem Cursor.breaksOff_of_fails {d : Dialect} {tokens : List Token} {s : Cursor}
    {e : AnalysisError} (hs : Reached d tokens s) (h : Fails d e s) :
    ∃ part, e = .endOfInput part ∧ BreaksOff tokens d.grammar part := by
  rw [← hs.append_eq]
  cases h with
  | read hread hadd =>
    have hreads := Construct.reads_of_read_eq hread
    rcases Draft.cut_of_add_eq_error hadd with
      ⟨label, rfl, rfl⟩ | ⟨label, afterBrace, part, rfl, rfl, hpart⟩
    · cases hreads with
      | forLoop ht hheader =>
        subst ht
        exact ⟨_, rfl, .of_forHeader hheader⟩
      | ordinary hordinary _ => exact hordinary.elim
    · cases hreads with
      | whileLoop ht hcondition =>
        subst ht
        exact ⟨_, rfl, .of_condition hpart hcondition⟩
      | ordinary hordinary _ => exact hordinary.elim

/-- A stream of tokens is read into a tree with a full report, or it breaks off in the header of a
loop. -/
theorem SyntaxTree.reported_or_breaksOff (d : Dialect) (tokens : List Token) :
    (∃ t, ofTokens d tokens = .ok t ∧ ∀ n, ∃ r, d.reportOn t n = .ok r) ∨
      ∃ part, ofTokens d tokens = .error (.endOfInput part) ∧ BreaksOff tokens d.grammar part := by
  cases h : ofTokens d tokens with
  | ok t =>
    have ht := arranged_ofTokens h
    refine .inl ⟨t, rfl, fun n => ?_⟩
    rw [Dialect.reportOn, time_eq ht, space_eq ht]
    exact ⟨_, rfl⟩
  | error e =>
    obtain ⟨s, hs, hfails⟩ := ofTokens_eq_error_iff.1 h
    obtain ⟨part, rfl, hbreak⟩ := Cursor.breaksOff_of_fails hs hfails
    exact .inr ⟨part, rfl, hbreak⟩

example : (SyntaxTree.ofTokens { grammar := .javaLike }
    (Grammar.tokenize .javaLike "for ( i = 0 ; f ( i ) ; i ++")) =
      .error (.endOfInput .forHeader) := by
  cbv

end GrowthOrder
