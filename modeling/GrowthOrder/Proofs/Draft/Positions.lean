import GrowthOrder.Proofs.Construct.Positions
import GrowthOrder.Proofs.Tree.Stack
import Mathlib

/-!
# Parsing at positions

The walk over positions, construct after construct, with a stack of open scopes that has the root at
its bottom. Every iteration that adds a construct moves on by at least a token, so more turns than
tokens are enough. The walk has no fault: behind every construct it stands at a token, and the root
stays on the stack, so the scopes left open can be counted without it. The outcome is that of
reading the tokens as a list.
-/
namespace GrowthOrder.Indexed

/-- Where the walk is, with what it has read. -/
structure State where
  /-- The index of the next token. -/
  pos : Nat
  draft : Draft
  /-- The open scopes from the root inwards. -/
  stack : List Nat

namespace State

def start : State where
  pos := 0
  draft := .start
  stack := [0]

end State

/-- The stack when a construct has been added to a draft. A loop with a structured header is opened
and closed at once; the trailer of a do-loop opens nothing. -/
def stackBehind (x : Draft) (stack : List Nat) : Construct → List Nat
  | .scope _ _ | .forLoop _ (.positional _ _ _) => stack ++ [x.builder.tree.size]
  | .forLoop _ (.clauses _) | .forLoop _ .absent => pop (stack ++ [x.builder.tree.size])
  | .whileLoop _ afterBrace _ =>
    if (x.pendingDo? afterBrace).isSome then stack else stack ++ [x.builder.tree.size]
  | .close => pop stack
  | _ => stack

section

variable (d : Dialect) (tokens : List Token) (turns : Nat)

/-- Reads the construct at a token and goes on to the token behind it. -/
def iteration (s : State) (t : Token) : Checked (Except AnalysisError State) := do
  let (c, last) ← construct d tokens turns t s.pos
  return (s.draft.add c).map fun draft => ⟨last + 1, draft, stackBehind s.draft s.stack c⟩

/-- Goes on to the end of the tokens, or to a construct that cannot be added. -/
def run : Nat → State → Checked (Except AnalysisError State)
  | 0, _ => throw .unended
  | turns + 1, s =>
    match tokens[s.pos]? with
    | none => pure (.ok s)
    | some t => do
      match ← iteration d tokens turns s t with
      | .error e => pure (.error e)
      | .ok s => run turns s

/-- The finished tree. The root is not one of the scopes left open. -/
def finish (s : State) : Checked SyntaxTree := do
  let unclosed ← lower s.stack.length
  return { s.draft.builder.tree with unclosedScopes := unclosed }

/-- The tree of the tokens. -/
def parse : Checked (Except AnalysisError SyntaxTree) := do
  match ← run d tokens turns .start with
  | .error e => pure (.error e)
  | .ok s => return .ok (← finish s)

end

variable {d : Dialect} {tokens rest : List Token} {t : Token} {turns pos : Nat} {x y : Draft}
  {c : Construct} {e : AnalysisError}

/-! ## The stack -/

/-- The stack of the walk follows the scopes of the draft. -/
theorem stackBehind_eq (h : x.add c = .ok y) :
    stackBehind x x.builder.stack c = y.builder.stack := by
  have hgraft : ∀ F, (x.graft F).builder.stack = x.builder.stack := by
    intro F
    rw [Builder.stack, Draft.graft, Builder.scopes_graft]
    rfl
  have hpush : pop (x.builder.stack ++ [x.builder.tree.size]) = x.builder.stack :=
    pop_push _ _ (List.cons_ne_nil _ _)
  cases c with
  | leaf kind label =>
    cases h
    rfl
  | scope kind label =>
    cases h
    exact (Builder.stack_enter ..).symm
  | close =>
    cases h
    exact (Builder.stack_leave (x.builder.leaf .expression (some "\x7d"))).symm
  | forLoop label header =>
    cases header with
    | positional i c u =>
      cases h
      exact (Builder.stack_enter ..).symm
    | clauses texts =>
      cases h
      exact hpush.trans (hgraft _).symm
    | absent =>
      cases h
      exact hpush
    | cut => cases h
  | whileLoop label afterBrace condition =>
    rw [Draft.add] at h
    rw [stackBehind]
    cases hp : x.pendingDo? afterBrace with
    | some id =>
      rw [hp] at h
      cases condition <;> cases h <;> rfl
    | none =>
      rw [hp] at h
      cases condition with
      | unread =>
        cases h
        exact (Builder.stack_enter ..).symm
      | token text =>
        cases h
        exact (Builder.stack_enter ..).symm
      | cut => cases h
  | typedArray typeName name dimensions =>
    cases h
    exact (hgraft _).symm
  | bareArray name dimensions =>
    cases h
    exact (hgraft _).symm
  | call name arguments =>
    cases h
    exact (hgraft _).symm

/-! ## Iterations -/

/-- A construct leaves the walk at a token. -/
theorem landing_lt (h : Stands tokens pos rest) {n : Nat} (hn : n ≤ rest.length) :
    pos + n < tokens.length := by
  have hlength := h.length
  omega

theorem length_lt_turns (h : Stands tokens pos rest) (hturns : tokens.length < turns) :
    rest.length < turns := by
  have hlength := h.length
  omega

theorem iteration_eq {s : State} {n : Nat} (h : Stands tokens s.pos rest)
    (hturns : rest.length < turns)
    (hread : Construct.read d (previous? tokens s.pos) t rest = (c, n)) :
    iteration d tokens turns s t =
      pure ((s.draft.add c).map fun y => ⟨s.pos + n + 1, y, stackBehind s.draft s.stack c⟩) := by
  rw [iteration, construct_eq h hturns t, hread, pure_bind]

theorem run_of_iteration {s s' : State} (ht : tokens[s.pos]? = some t)
    (h : iteration d tokens turns s t = pure (.ok s')) :
    run d tokens (turns + 1) s = run d tokens turns s' := by
  rw [run, ht]
  dsimp only
  rw [h, pure_bind]

theorem run_of_failure {s : State} (ht : tokens[s.pos]? = some t)
    (h : iteration d tokens turns s t = pure (.error e)) :
    run d tokens (turns + 1) s = pure (.error e) := by
  rw [run, ht]
  dsimp only
  rw [h, pure_bind]

/-! ## The whole run -/

/-- The state of the walk at a place of a run. -/
def State.ofCursor (s : Cursor) : State where
  pos := s.done.length
  draft := s.draft
  stack := s.draft.builder.stack

section

variable {done : List Token} {n : Nat}

theorem stands_append (done : List Token) (t : Token) (rest : List Token) :
    Stands (done ++ t :: rest) done.length rest := by
  refine ⟨by rw [List.length_append, List.length_cons]; omega, ?_⟩
  rw [← List.drop_drop, List.drop_left, List.drop_one, List.tail_cons]

theorem previous?_append (done rest : List Token) :
    previous? (done ++ rest) done.length = done.getLast? := by
  cases done using List.reverseRecOn with
  | nil => rfl
  | append_singleton done t =>
    rw [List.length_append, List.length_singleton, previous?, List.getLast?_concat]
    simp

theorem getElem?_done (done : List Token) (t : Token) (rest : List Token) :
    (done ++ t :: rest)[done.length]? = some t := by
  rw [List.getElem?_append_right (Nat.le_refl _), Nat.sub_self]
  rfl

/-- An iteration reads the construct that the cursor stands before. -/
theorem iteration_ofCursor (hturns : rest.length < turns)
    (hread : Construct.read d done.getLast? t rest = (c, n)) :
    iteration d (done ++ t :: rest) turns (.ofCursor ⟨done, x, t :: rest⟩) t =
      pure ((x.add c).map fun y => ⟨done.length + n + 1, y, stackBehind x x.builder.stack c⟩) := by
  refine iteration_eq (stands_append done t rest) hturns ?_
  show Construct.read d (previous? (done ++ t :: rest) done.length) t rest = (c, n)
  rw [previous?_append, hread]

theorem run_of_add (hturns : rest.length < turns)
    (hread : Construct.read d done.getLast? t rest = (c, n)) (hadd : x.add c = .ok y) :
    run d (done ++ t :: rest) (turns + 1) (.ofCursor ⟨done, x, t :: rest⟩) =
      run d (done ++ t :: rest) turns (.ofCursor ⟨done ++ t :: rest.take n, y, rest.drop n⟩) := by
  have hn := (Construct.covered_read d done.getLast? t rest).range
  rw [hread] at hn
  have hnext : (⟨done.length + n + 1, y, stackBehind x x.builder.stack c⟩ : State) =
      .ofCursor ⟨done ++ t :: rest.take n, y, rest.drop n⟩ := by
    rw [stackBehind_eq hadd, State.ofCursor]
    dsimp only
    rw [List.length_append, List.length_cons, List.length_take, Nat.min_eq_left hn, Nat.add_assoc]
  have hiteration := iteration_ofCursor (x := x) hturns hread
  rw [hadd, Except.map, hnext] at hiteration
  exact run_of_iteration (getElem?_done done t rest) hiteration

theorem run_of_add_eq_error (hturns : rest.length < turns)
    (hread : Construct.read d done.getLast? t rest = (c, n)) (hadd : x.add c = .error e) :
    run d (done ++ t :: rest) (turns + 1) (.ofCursor ⟨done, x, t :: rest⟩) =
      pure (.error e) := by
  have hiteration := iteration_ofCursor (x := x) hturns hread
  rw [hadd, Except.map] at hiteration
  exact run_of_failure (getElem?_done done t rest) hiteration

end

/-- From every place of a run the walk goes on as the run does, one turn for a construct. -/
theorem run_ofCursor {s : Cursor} (hs : s.done ++ s.rest = tokens)
    (hturns : s.rest.length < turns) : run d tokens turns (.ofCursor s) =
      pure ((s.outcome d).map fun x => .ofCursor ⟨tokens, x, []⟩) := by
  induction turns generalizing s with
  | zero => exact absurd hturns (Nat.not_lt_zero _)
  | succ turns ih =>
    obtain ⟨done, x, rest⟩ := s
    cases rest with
    | nil =>
      obtain rfl : done = tokens := by simpa using hs
      have hend : done[(State.ofCursor ⟨done, x, []⟩).pos]? = none :=
        List.getElem?_eq_none (Nat.le_refl _)
      rw [run, hend, Cursor.outcome_of_end]
      rfl
    | cons t rest =>
      obtain rfl : done ++ t :: rest = tokens := hs
      have hrest : rest.length < turns := Nat.lt_of_succ_lt_succ hturns
      obtain ⟨c, n, hread⟩ : ∃ c n, Construct.read d done.getLast? t rest = (c, n) := ⟨_, _, rfl⟩
      cases hadd : x.add c with
      | error e =>
        rw [run_of_add_eq_error hrest hread hadd, Cursor.outcome_of_fails (.read hread hadd)]
        rfl
      | ok y =>
        have hstep : Cursor.Step d ⟨done, x, t :: rest⟩
          ⟨done ++ t :: rest.take n, y, rest.drop n⟩ := .read hread hadd
        rw [run_of_add hrest hread hadd, Cursor.outcome_of_step hstep]
        have hless := Cursor.length_lt_of_step hstep
        exact ih (Cursor.append_eq_of_step hstep) (Nat.lt_of_lt_of_le hless hrest)

/-- The count of the open scopes leaves out the root, which is always on the stack. -/
theorem finish_ofCursor (s : Cursor) :
    finish (.ofCursor s) = pure s.draft.builder.finish := by
  have hlength : (State.ofCursor s).stack.length = s.draft.builder.scopes.length + 1 := by
    show (0 :: s.draft.builder.scopes.reverse).length = _
    rw [List.length_cons, List.length_reverse]
  rw [finish, hlength, lower, pure_bind]
  rfl

theorem parse_eq (d : Dialect) (hturns : tokens.length < turns) :
    parse d tokens turns = pure (SyntaxTree.ofTokens d tokens) := by
  have hstart : State.start = .ofCursor (.start tokens) := rfl
  rw [parse, hstart, run_ofCursor (List.nil_append tokens) hturns, pure_bind,
    SyntaxTree.ofTokens_eq]
  cases (Cursor.start tokens).outcome d with
  | error e => rfl
  | ok x =>
    dsimp only [Except.map]
    rw [finish_ofCursor, pure_bind]

/-- For every dialect and every list of tokens more turns than tokens are enough for the walk, and it
has no fault: it gives the tree or the error of reading the list. At every token the construct ends at
a token at or behind this one, and unless it cannot be added the next iteration begins behind this
token. From every position the arguments of a call, however many parentheses are open, and the
dimensions of an array are read to an end at a token. -/
theorem parse_stays_in_range (d : Dialect) (tokens : List Token) (turns : Nat)
    (hturns : tokens.length < turns) :
    parse d tokens turns = .ok (SyntaxTree.ofTokens d tokens) ∧
    (∀ (s : State) (t : Token), tokens[s.pos]? = some t →
      (∃ c last, construct d tokens turns t s.pos = .ok (c, last) ∧ s.pos ≤ last ∧
        last < tokens.length) ∧
      ∃ r, iteration d tokens turns s t = .ok r ∧ ∀ s', r = .ok s' → s.pos < s'.pos) ∧
    (∀ pos depth, pos < tokens.length → 0 < depth →
      ∃ a last, arguments d tokens turns pos depth = .ok (a, last) ∧ pos ≤ last ∧
        last < tokens.length) ∧
    ∀ pos, pos < tokens.length →
      ∃ sizes last, dimensions tokens turns pos = .ok (sizes, last) ∧ pos ≤ last ∧
        last < tokens.length := by
  refine ⟨parse_eq d hturns, ?_, ?_, ?_⟩
  · intro s t ht
    have hstands : Stands tokens s.pos (tokens.drop (s.pos + 1)) :=
      ⟨(List.getElem?_eq_some_iff.1 ht).1, rfl⟩
    have hrest := length_lt_turns hstands hturns
    have hcovered := Construct.covered_read d (previous? tokens s.pos) t
      (tokens.drop (s.pos + 1))
    obtain ⟨c, n, hread⟩ : ∃ c n, Construct.read d (previous? tokens s.pos) t
      (tokens.drop (s.pos + 1)) = (c, n) := ⟨_, _, rfl⟩
    have hconstruct := construct_eq (d := d) hstands hrest t
    rw [hread] at hcovered hconstruct
    refine ⟨⟨c, s.pos + n, hconstruct, Nat.le_add_right _ _,
      landing_lt hstands hcovered.range⟩, _, iteration_eq hstands hrest hread, ?_⟩
    intro s' hs'
    cases hadd : s.draft.add c with
    | error e =>
      rw [hadd] at hs'
      cases hs'
    | ok y =>
      rw [hadd] at hs'
      cases hs'
      show s.pos < s.pos + n + 1
      omega
  · intro pos depth hpos hdepth
    obtain ⟨outer, rfl⟩ := Nat.exists_eq_succ_of_ne_zero (Nat.ne_of_gt hdepth)
    have hstands : Stands tokens pos (tokens.drop (pos + 1)) := ⟨hpos, rfl⟩
    exact ⟨_, _, arguments_eq hstands (length_lt_turns hstands hturns), Nat.le_add_right _ _,
      landing_lt hstands (Arguments.read_le d outer _)⟩
  · intro pos hpos
    have hstands : Stands tokens pos (tokens.drop (pos + 1)) := ⟨hpos, rfl⟩
    exact ⟨_, _, dimensions_eq hstands (length_lt_turns hstands hturns), Nat.le_add_right _ _,
      landing_lt hstands (Subscript.dimensions_le _).1⟩

/-- The tokens end inside both calls. -/
theorem parse_stays_in_range_nested :
    let d : Dialect := { grammar := .cLike }
    let f : Token := ⟨.identifier, "f"⟩
    let tokens : List Token := [f, ⟨.separator, "("⟩, ⟨.identifier, "g"⟩, ⟨.separator, "("⟩]
    tokens.length < 5 ∧ tokens[State.start.pos]? = some f ∧
      parse d tokens 5 = .ok (SyntaxTree.ofTokens d tokens) ∧
      construct d tokens 5 f 0 = .ok (.call "f" (.call "g" (.done false) (.done false)), 3) ∧
      (∃ r, iteration d tokens 5 .start f = .ok r ∧ ∀ s', r = .ok s' → 0 < s'.pos) ∧
      (∃ a last, arguments d tokens 5 1 1 = .ok (a, last) ∧ 1 ≤ last ∧ last < 4) ∧
      ∃ sizes last, dimensions tokens 5 1 = .ok (sizes, last) ∧ 1 ≤ last ∧ last < 4 := by
  intro d f tokens
  have hturns : tokens.length < 5 := by decide
  have hconstruct : construct d tokens 5 f 0 =
      .ok (.call "f" (.call "g" (.done false) (.done false)), 3) := by cbv
  obtain ⟨hparse, hiteration, harguments, hdimensions⟩ := parse_stays_in_range d tokens 5 hturns
  exact ⟨hturns, rfl, hparse, hconstruct, (hiteration .start f rfl).2,
    harguments 1 1 (by decide) (by decide), hdimensions 1 (by decide)⟩

end GrowthOrder.Indexed
