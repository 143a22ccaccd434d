import GrowthOrder.Tree.Draft
import Mathlib.Logic.Relation

/-!
# Reading a stream of tokens step by step

A cursor stands between the tokens that were read and those that are left, with the draft that the
former gave. A step reads one construct and adds it to the draft. Every stream has one run of steps
from its beginning. The tree is that of the cursor behind the last token; if there is an error, it
is that of the one cursor at which the next construct cannot be added.
-/
namespace GrowthOrder

/-- What becomes of a draft when tokens are read into it. -/
def Draft.readFrom (d : Dialect) (x : Draft) (previous : Option Token) (ts : List Token) :
    Except AnalysisError Draft :=
  (Construct.list d previous ts).foldlM Draft.add x

/-- A place in a stream of tokens, and the draft at that place. -/
structure Cursor where
  done : List Token
  draft : Draft
  rest : List Token

namespace Cursor

/-- The place before the first token. -/
def start (tokens : List Token) : Cursor where
  done := []
  draft := .start
  rest := tokens

/-- One construct is read and added. -/
inductive Step (d : Dialect) : Cursor → Cursor → Prop
  | read {done rest : List Token} {t : Token} {x y : Draft} {c : Construct} {n : Nat} :
      Construct.read d done.getLast? t rest = (c, n) → x.add c = .ok y →
      Step d ⟨done, x, t :: rest⟩ ⟨done ++ t :: rest.take n, y, rest.drop n⟩

/-- The next construct cannot be added. -/
inductive Fails (d : Dialect) (e : AnalysisError) : Cursor → Prop
  | read {done rest : List Token} {t : Token} {x : Draft} {c : Construct} {n : Nat} :
      Construct.read d done.getLast? t rest = (c, n) → x.add c = .error e →
      Fails d e ⟨done, x, t :: rest⟩

/-- The cursor is one of those of the run through the tokens. -/
def Reached (d : Dialect) (tokens : List Token) (s : Cursor) : Prop :=
  Relation.ReflTransGen (Step d) (start tokens) s

/-- The cursor behind the next construct. -/
def next? (d : Dialect) (s : Cursor) : Option Cursor :=
  match s.rest with
  | [] => none
  | t :: rest =>
    let (c, n) := Construct.read d s.done.getLast? t rest
    match s.draft.add c with
    | .ok y => some ⟨s.done ++ t :: rest.take n, y, rest.drop n⟩
    | .error _ => none

/-- The cursor behind so many constructs. -/
def after? (d : Dialect) : Nat → Cursor → Option Cursor
  | 0, s => some s
  | n + 1, s => (s.next? d).bind (after? d n)

/-- What becomes of the draft when the rest is read. -/
def outcome (d : Dialect) (s : Cursor) : Except AnalysisError Draft :=
  s.draft.readFrom d s.done.getLast? s.rest

variable {d : Dialect} {tokens : List Token} {s s' : Cursor} {e : AnalysisError}

theorem append_eq_of_step (h : Step d s s') : s'.done ++ s'.rest = s.done ++ s.rest := by
  cases h with
  | read _ _ =>
    show _ ++ _ :: _ ++ _ = _
    rw [List.append_assoc, List.cons_append, List.take_append_drop]

theorem length_lt_of_step (h : Step d s s') : s'.rest.length < s.rest.length := by
  cases h with
  | read _ _ =>
    show (List.drop _ _).length < _
    rw [List.length_drop, List.length_cons]
    omega

/-- The tokens that were read and those that are left are the whole stream. -/
theorem Reached.append_eq (h : Reached d tokens s) : s.done ++ s.rest = tokens := by
  induction h with
  | refl => rfl
  | tail _ hstep ih => rw [append_eq_of_step hstep, ih]

theorem length_done_lt_of_step (h : Step d s s') : s.done.length < s'.done.length := by
  cases h with
  | @read done rest t x y c n _ _ =>
    show done.length < (done ++ t :: rest.take n).length
    rw [List.length_append, List.length_cons]
    omega

theorem length_done_le_of_run (h : Relation.ReflTransGen (Step d) s s') :
    s.done.length ≤ s'.done.length := by
  induction h with
  | refl => exact Nat.le_refl _
  | tail _ hstep ih => exact Nat.le_trans ih (Nat.le_of_lt (length_done_lt_of_step hstep))

theorem step_of_next? (h : s.next? d = some s') : Step d s s' := by
  obtain ⟨done, x, rest⟩ := s
  cases rest with
  | nil => cases h
  | cons t rest =>
    unfold next? at h
    dsimp only at h
    split at h
    · next y hadd =>
      cases h
      exact .read rfl hadd
    · cases h

theorem run_of_after? {n : Nat} (h : s.after? d n = some s') :
    Relation.ReflTransGen (Step d) s s' := by
  induction n generalizing s with
  | zero =>
    cases h
    exact .refl
  | succ n ih =>
    obtain ⟨r, hnext, hafter⟩ := Option.bind_eq_some_iff.1 h
    exact .head (step_of_next? hnext) (ih hafter)

theorem step_rightUnique (d : Dialect) : Relator.RightUnique (Step d) := by
  intro s a b ha hb
  cases ha with
  | read hread hadd =>
    cases hb with
    | read hread' hadd' =>
      obtain ⟨rfl, rfl⟩ := Prod.mk.inj (hread.symm.trans hread')
      obtain rfl := Except.ok.inj (hadd.symm.trans hadd')
      rfl

/-- Only one step of a run leads to a cursor. -/
theorem Reached.source_unique {r r' : Cursor} (hr : Reached d tokens r)
    (hr' : Reached d tokens r') (h : Step d r s) (h' : Step d r' s) : r = r' := by
  -- if one came before the other, its step would lead at most to the other and not beyond it
  have hrun : ∀ {a b : Cursor}, Relation.ReflTransGen (Step d) a b → Step d a s → Step d b s →
      a = b := by
    intro a b hab ha hb
    rcases hab.cases_head with heq | ⟨c, hac, hcb⟩
    · exact heq
    · obtain rfl := step_rightUnique d hac ha
      exact absurd (length_done_le_of_run hcb) (Nat.not_le.2 (length_done_lt_of_step hb))
  rcases Relation.ReflTransGen.total_of_right_unique (step_rightUnique d) hr hr' with hle | hle
  · exact hrun hle h h'
  · exact (hrun hle h' h).symm

theorem outcome_of_step (h : Step d s s') : s.outcome d = s'.outcome d := by
  cases h with
  | @read done rest t x y c n hread hadd =>
    have hlast : (done ++ t :: rest.take n).getLast? = (t :: rest.take n).getLast? := by
      rw [List.getLast?_append, List.getLast?_cons, Option.some_or]
    rw [outcome, outcome, Draft.readFrom, Construct.list, hread]
    dsimp only
    rw [List.foldlM_cons, hadd, hlast]
    rfl

theorem outcome_of_fails (h : Fails d e s) : s.outcome d = .error e := by
  cases h with
  | read hread hadd =>
    rw [outcome, Draft.readFrom, Construct.list, hread]
    dsimp only
    rw [List.foldlM_cons, hadd]
    rfl

theorem outcome_of_run (h : Relation.ReflTransGen (Step d) s s') : s.outcome d = s'.outcome d := by
  induction h with
  | refl => rfl
  | tail _ hstep ih => rw [ih, outcome_of_step hstep]

theorem outcome_of_end {x : Draft} {done : List Token} :
    outcome d ⟨done, x, []⟩ = .ok x := by
  rw [outcome, Draft.readFrom, Construct.list]
  rfl

/-- Every run comes to the end of the tokens or to a construct that cannot be added. -/
theorem exists_end (d : Dialect) (s : Cursor) :
    (∃ x, Relation.ReflTransGen (Step d) s ⟨s.done ++ s.rest, x, []⟩) ∨
      ∃ s' e, Relation.ReflTransGen (Step d) s s' ∧ Fails d e s' := by
  obtain ⟨done, x, rest⟩ := s
  induction hn : rest.length using Nat.strongRecOn generalizing done x rest with
  | ind n ih =>
    cases rest with
    | nil =>
      refine .inl ⟨x, ?_⟩
      rw [List.append_nil]
    | cons t rest =>
      obtain ⟨c, k, hread⟩ : ∃ c k, Construct.read d done.getLast? t rest = (c, k) := ⟨_, _, rfl⟩
      cases hadd : x.add c with
      | error e => exact .inr ⟨_, e, .refl, .read hread hadd⟩
      | ok y =>
        have hstep : Step d ⟨done, x, t :: rest⟩ ⟨done ++ t :: rest.take k, y, rest.drop k⟩ :=
          .read hread hadd
        have happend := append_eq_of_step hstep
        rcases ih _ (hn ▸ length_lt_of_step hstep) _ y _ rfl with ⟨z, hz⟩ | ⟨s', e, hs', he⟩
        · exact .inl ⟨z, .head hstep (happend ▸ hz)⟩
        · exact .inr ⟨s', e, .head hstep hs', he⟩

end Cursor

namespace SyntaxTree

variable {d : Dialect} {tokens : List Token} {t : SyntaxTree} {e : AnalysisError}

open Cursor (Reached Fails)

theorem ofTokens_eq (d : Dialect) (tokens : List Token) :
    ofTokens d tokens = ((Cursor.start tokens).outcome d).map fun x => x.builder.finish :=
  rfl

/-- The tree that is read is that of the draft behind the last token. -/
theorem exists_reached_of_ok (h : ofTokens d tokens = .ok t) :
    ∃ x, Reached d tokens ⟨tokens, x, []⟩ ∧ t = x.builder.finish := by
  rw [ofTokens_eq] at h
  rcases Cursor.exists_end d (.start tokens) with ⟨x, hx⟩ | ⟨s', e, hs', he⟩
  · rw [Cursor.outcome_of_run hx, Cursor.outcome_of_end] at h
    exact ⟨x, hx, (Except.ok.inj h).symm⟩
  · rw [Cursor.outcome_of_run hs', Cursor.outcome_of_fails he] at h
    cases h

/-- Reading fails exactly if the run comes to a construct that cannot be added. -/
theorem ofTokens_eq_error_iff :
    ofTokens d tokens = .error e ↔ ∃ s, Reached d tokens s ∧ Fails d e s := by
  rw [ofTokens_eq]
  constructor
  · intro h
    rcases Cursor.exists_end d (.start tokens) with ⟨x, hx⟩ | ⟨s', e', hs', he'⟩
    · rw [Cursor.outcome_of_run hx, Cursor.outcome_of_end] at h
      cases h
    · rw [Cursor.outcome_of_run hs', Cursor.outcome_of_fails he'] at h
      cases h
      exact ⟨s', hs', he'⟩
  · rintro ⟨s, hs, he⟩
    rw [Cursor.outcome_of_run hs, Cursor.outcome_of_fails he]
    rfl

end SyntaxTree

end GrowthOrder
