import GrowthOrder.Proofs.Draft.Coverage
import Mathlib

/-!
# Reading constructs at positions

The same reader a second time, as a walk over the positions of a fixed list of tokens. A position is
the index of the last token that was taken. The walk looks at tokens by their index, cuts ranges out
of the list, counts parentheses up and down and goes back by one where a header is missing; nothing
is known beforehand of where it stops or whether it does. It is given a number of turns, so many as
a loop may take or calls may be nested. A range that begins behind the end, a count below zero and
a turn too many are faults. With more turns than tokens the walk has no fault at any position of
the list: it finds the construct that the reader finds in what stands behind the position, and stops
at the index of a token.
-/
namespace GrowthOrder

theorem ForHeader.length_lt_of_clause {depth : Nat} {ts : List Token} {texts : List String}
    {closed : Bool} (h : clause depth ts = some (texts, closed)) : texts.length < ts.length := by
  obtain ⟨t, after, hdrop, -, -⟩ := exists_of_clause h
  have hlength := congrArg List.length hdrop
  rw [List.length_drop, List.length_cons] at hlength
  omega

namespace Indexed

/-- What stops a walk for good. -/
inductive Fault
  /-- A range begins behind the end of the tokens. -/
  | outOfRange
  /-- A count goes below zero. -/
  | underflow
  /-- The turns are used up. -/
  | unended

/-- The result of a walk. -/
abbrev Checked (α : Type) := Except Fault α

/-! ## The walk -/

/-- The tokens from an index on. -/
def range (tokens : List Token) (start : Nat) : Checked (List Token) :=
  if start ≤ tokens.length then pure (tokens.drop start) else throw .outOfRange

/-- The count one lower. -/
def lower : Nat → Checked Nat
  | 0 => throw .underflow
  | n + 1 => pure n

/-- Whether the token at an index has this text. -/
def holds (tokens : List Token) (i : Nat) (text : String) : Bool :=
  tokens[i]?.any (·.is text)

/-- The token before a position. -/
def previous? (tokens : List Token) : Nat → Option Token
  | 0 => none
  | pos + 1 => tokens[pos]?

/-- How many parentheses are open behind a token. -/
def depthBehind (t : Token) (depth : Nat) : Checked Nat :=
  if t.is "(" then pure (depth + 1) else if t.is ")" then lower depth else pure depth

section

variable (d : Dialect) (tokens : List Token) (turns : Nat)

/-- The texts of a clause and whether a parenthesis ends it; none if the tokens end before. -/
def clause : Nat → Nat → Nat → Checked (Option (List String × Bool) × Nat)
  | 0, _, _ => throw .unended
  | turns + 1, pos, depth =>
    match tokens[pos + 1]? with
    | none => pure (none, pos)
    | some t =>
      if depth = 0 ∧ (t.is ";" ∨ t.is ")") then pure (some ([], t.is ")"), pos + 1)
      else do
        let inner ← depthBehind t depth
        let (more, last) ← clause turns (pos + 1) inner
        return (more.map fun (texts, closed) => (t.text :: texts, closed), last)

/-- At most so many clauses; none if the tokens end before. -/
def clauses : Nat → Nat → Checked (Option (List (List String)) × Nat)
  | 0, pos => pure (some [], pos)
  | most + 1, pos => do
    match ← clause tokens turns pos 0 with
    | (none, last) => pure (none, last)
    | (some (texts, closed), last) =>
      if closed then pure (some [texts], last)
      else
        let (more, last) ← clauses most last
        return (more.map (texts :: ·), last)

/-- The header of a loop. A structured one begins with a parenthesis: the walk steps onto the next
token to see it, and back if it is another. -/
def header (pos : Nat) : HeaderStyle → Checked (ForHeader × Nat)
  | .positional =>
    match tokens[pos + 1]? with
    | none => pure (.cut, pos)
    | some a =>
      match tokens[pos + 2]? with
      | none => pure (.cut, pos + 1)
      | some b =>
        match tokens[pos + 3]? with
        | none => pure (.cut, pos + 2)
        | some c => pure (.positional a.text b.text c.text, pos + 3)
  | .structured =>
    match tokens[pos + 1]? with
    | none => pure (.cut, pos)
    | some t =>
      if t.is "(" then do
        match ← clauses tokens turns 3 (pos + 1) with
        | (none, last) => pure (.cut, last)
        | (some texts, last) => pure (.clauses texts, last)
      else return (.absent, ← lower (pos + 1))

def condition (pos : Nat) : HeaderStyle → Checked (Condition × Nat)
  | .structured => pure (.unread, pos)
  | .positional =>
    match tokens[pos + 1]? with
    | none => pure (.cut, pos)
    | some t => pure (.token t.text, pos + 1)

/-- The tokens before the next closing bracket, which is taken too. -/
def group : Nat → Nat → Checked (List Token × Nat)
  | 0, _ => throw .unended
  | turns + 1, pos =>
    match tokens[pos + 1]? with
    | none => pure ([], pos)
    | some t =>
      if t.is "]" then pure ([], pos + 1)
      else do
        let (more, last) ← group turns (pos + 1)
        return (t :: more, last)

def dimensions : Nat → Nat → Checked (List Dimension × Nat)
  | 0, _ => throw .unended
  | turns + 1, pos =>
    if holds tokens (pos + 1) "[" then do
      let (inside, last) ← group tokens turns (pos + 1)
      let (more, last) ← dimensions turns last
      return (Dimension.ofTokens inside :: more, last)
    else pure ([], pos)

/-- Whether closed groups of brackets and then a semicolon come from an index on, at least one group
unless some were seen before. -/
def subscripts : Nat → Nat → Bool → Checked Bool
  | 0, _, _ => throw .unended
  | turns + 1, i, seen =>
    if holds tokens i "[" then do
      match (← range tokens i).findIdx? (·.is "]") with
      | none => pure false
      | some offset => subscripts turns (i + (offset + 1)) true
    else pure (seen && holds tokens i ";")

/-- The index of the parenthesis that closes a parameter list. -/
def closing? : Nat → Nat → Nat → Checked (Option Nat)
  | 0, _, _ => throw .unended
  | turns + 1, i, depth =>
    match tokens[i]? with
    | none => pure none
    | some t =>
      if t.is "(" then closing? turns (i + 1) (depth + 1)
      else if t.is ")" then
        if depth - 1 = 0 then pure (some i) else closing? turns (i + 1) (depth - 1)
      else closing? turns (i + 1) depth

/-- Whether a parameter list at an index has a body behind it. -/
def hasBody (i : Nat) : Checked Bool := do
  match ← closing? tokens turns i 0 with
  | none => pure false
  | some close =>
    let rest ← range tokens (close + 1)
    return (rest.find? fun t => t.is "\x7b" || t.is ";" || t.is "\x7d" || t.is ")").any
      (·.is "\x7b")

/-- A function whose name stands at the position. -/
def function (typeName name : String) (pos : Nat) : Checked (Construct × Nat) := do
  if ← hasBody tokens turns (pos + 1) then return (.scope (.functionDeclaration name) name, pos)
  else return (.leaf (.typeDeclaration { typeName, name := some name }) typeName, pos)

def declarator (typeName : String) (pos : Nat) : Checked (Construct × Nat) :=
  match tokens[pos + 1]? with
  | none => pure (.leaf (.typeDeclaration { typeName }) typeName, pos)
  | some t =>
    if t.isIdentifier && holds tokens (pos + 2) "(" then
      function tokens turns typeName t.text (pos + 1)
    else if t.isIdentifier && holds tokens (pos + 2) "[" then do
      let (sizes, last) ← dimensions tokens turns (pos + 1)
      return (.typedArray typeName (some t.text) sizes, last)
    else if t.is "[" then do
      let (sizes, last) ← dimensions tokens turns pos
      match tokens[last + 1]? with
      | some name =>
        if name.isIdentifier then
          if holds tokens (last + 2) "(" then
            function tokens turns (typeName ++ "[]") name.text (last + 1)
          else pure (.typedArray typeName (some name.text) sizes, last + 1)
        else pure (.typedArray typeName none sizes, last)
      | none => pure (.typedArray typeName none sizes, last)
    else if t.isIdentifier then
      pure (.leaf (.typeDeclaration { typeName, name := some t.text }) typeName, pos + 1)
    else pure (.leaf (.typeDeclaration { typeName }) typeName, pos)

def declaration (typeName : String) (pos : Nat) : Checked (Construct × Nat) := do
  let stars := ((← range tokens (pos + 1)).takeWhile (·.is "*")).length
  if 0 < stars ∧ tokens[pos + (stars + 1)]?.any Token.isIdentifier then
    declarator tokens turns typeName (pos + stars)
  else declarator tokens turns typeName pos

/-- The arguments behind a position, `depth` parentheses being open, the one at the beginning
included. -/
def arguments : Nat → Nat → Nat → Checked (Arguments × Nat)
  | 0, _, _ => throw .unended
  | turns + 1, pos, depth =>
    match tokens[pos + 1]? with
    | none => pure (.done false, pos)
    | some t =>
      if depth = 1 ∧ (t.is ";" ∨ t.is "\x7b" ∨ t.is "\x7d") then pure (.done false, pos)
      else do
        let inner ← depthBehind t depth
        if t.is ")" ∧ inner = 0 then pure (.done true, pos + 1)
        else if d.isCallee t && holds tokens (pos + 2) "(" then do
          let (nested, last) ← arguments turns (pos + 2) 1
          let (more, last) ← arguments turns last inner
          return (.call t.text nested more, last)
        else do
          let (more, last) ← arguments turns (pos + 1) inner
          return (.word t.text more, last)

/-- Whether a name at the position stands behind a type and before a parameter list with a body. -/
def isDefinition (pos : Nat) : Checked Bool :=
  if (previous? tokens pos).any (Construct.endsType d.grammar) then hasBody tokens turns (pos + 1)
  else pure false

def callSite (name : String) (pos : Nat) : Checked (Construct × Nat) := do
  if ← isDefinition d tokens turns pos then
    return (.scope (.functionDeclaration name) name, pos)
  else if d.isIntrinsic name then return (.leaf .expression name, pos)
  else if d.grammar.isAllocator name then return (.leaf .newInstance name, pos)
  else
    let (arguments, last) ← arguments d tokens turns (pos + 1) 1
    return (.call name arguments, last)

/-- Whether a token at the position is a statement of its own together with its subscripts. -/
def isSubscripted (t : Token) (pos : Nat) : Checked Bool :=
  if t.isIdentifier && Construct.beginsStatement (previous? tokens pos) then
    subscripts tokens turns (pos + 1) false
  else pure false

def plain (t : Token) (pos : Nat) : Checked (Construct × Nat) :=
  if t.is "\x7d" then pure (.close, pos)
  else if t.isIdentifier && holds tokens (pos + 1) "(" then callSite d tokens turns t.text pos
  else do
    if ← isSubscripted tokens turns t pos then
      let (sizes, last) ← dimensions tokens turns pos
      return (.bareArray t.text sizes, last)
    else return (.leaf .expression t.text, pos)

def keyword (text : String) (pos : Nat) : KeywordAction → Checked (Construct × Nat)
  | .forLoop => do
    let (header, last) ← header tokens turns pos d.grammar.headerStyle
    return (.forLoop text header, last)
  | .whileLoop => do
    let (condition, last) ← condition tokens pos d.grammar.headerStyle
    return (.whileLoop text ((previous? tokens pos).any (·.is "\x7d")) condition, last)
  | .doLoop => pure (.scope (.loop .doWhile {}) text, pos)
  | .conditional => pure (.scope .conditional text, pos)
  | .typeDeclaration => declaration tokens turns text pos
  | .returnStatement => pure (.leaf .returnStatement text, pos)
  | .typedef => pure (.leaf .typedef text, pos)
  | .sizeof => pure (.leaf .sizeof text, pos)
  | .newInstance =>
    match tokens[pos + 1]? with
    | some t =>
      if t.isIdentifier then pure (.leaf .newInstance t.text, pos + 1)
      else pure (.leaf .newInstance text, pos)
    | none => pure (.leaf .newInstance text, pos)
  | .specialReference => pure (.leaf .specialReference text, pos)

/-- The construct that begins with the token at a position, and the last position that it takes. -/
def construct (t : Token) (pos : Nat) : Checked (Construct × Nat) :=
  match t.kind with
  | .keyword =>
    match d.grammar.action? t.text with
    | some action => keyword d tokens turns t.text pos action
    | none => plain d tokens turns t pos
  | .unknown => pure (.leaf .unknown t.text, pos)
  | _ => plain d tokens turns t pos

end

/-! ## Positions and what stands behind them -/

/-- A position is the index of a token, and `rest` is what stands behind it. -/
structure Stands (tokens : List Token) (pos : Nat) (rest : List Token) : Prop where
  lt : pos < tokens.length
  drop : tokens.drop (pos + 1) = rest

/-- A result with the last position that it takes in place of the number of tokens. -/
abbrev landing {α : Type} (pos : Nat) (r : α × Nat) : α × Nat :=
  (r.1, pos + r.2)

variable {d : Dialect} {tokens rest ts : List Token} {t : Token} {turns pos depth : Nat}

namespace Stands

theorem length (h : Stands tokens pos rest) : pos + (rest.length + 1) = tokens.length := by
  have hlt := h.lt
  rw [← h.drop, List.length_drop]
  omega

theorem getElem? (h : Stands tokens pos rest) (i : Nat) : tokens[pos + (i + 1)]? = rest[i]? := by
  rw [← h.drop, List.getElem?_drop]
  congr 1
  omega

theorem skip (h : Stands tokens pos rest) {n : Nat} (hn : n ≤ rest.length) :
    Stands tokens (pos + n) (rest.drop n) := by
  have hlength := h.length
  refine ⟨by omega, ?_⟩
  rw [← h.drop, List.drop_drop]
  congr 1
  omega

theorem behind (h : Stands tokens pos (ts ++ rest)) : Stands tokens (pos + ts.length) rest := by
  have hskip := h.skip (n := ts.length) (by rw [List.length_append]; omega)
  rwa [List.drop_left] at hskip

theorem getElem?_last (h : Stands tokens pos (ts ++ rest)) (hts : ts ≠ []) :
    tokens[pos + ts.length]? = ts.getLast? := by
  obtain ⟨n, hn⟩ := Nat.exists_eq_succ_of_ne_zero (mt List.length_eq_zero_iff.1 hts)
  rw [hn, h.getElem?, List.getElem?_append_left (by omega), List.getLast?_eq_getElem?, hn]
  rfl

theorem tail (h : Stands tokens pos (t :: rest)) : Stands tokens (pos + 1) rest :=
  h.skip (Nat.succ_le_succ (Nat.zero_le _))

theorem next_nil (h : Stands tokens pos []) : tokens[pos + 1]? = none :=
  h.getElem? 0

theorem next_cons (h : Stands tokens pos (t :: rest)) : tokens[pos + 1]? = some t :=
  h.getElem? 0

theorem holds_next (h : Stands tokens pos rest) (text : String) :
    holds tokens (pos + 1) text = nextIs rest text := by
  rw [holds, h.getElem? 0, nextIs, List.head?_eq_getElem?]

theorem range_next (h : Stands tokens pos rest) : range tokens (pos + 1) = pure rest := by
  rw [range, if_pos (Nat.succ_le_of_lt h.lt), h.drop]

end Stands

/-- A parenthesis closes one that is open. -/
theorem depthBehind_eq (h : ¬(depth = 0 ∧ t.is ")")) : depthBehind t depth =
    pure (if t.is "(" then depth + 1 else if t.is ")" then depth - 1 else depth) := by
  unfold depthBehind
  split
  · rfl
  · split
    · next hclose =>
      cases depth with
      | zero => exact absurd ⟨rfl, hclose⟩ h
      | succ n => rfl
    · rfl

/-! ## Headers -/

theorem clause_eq (h : Stands tokens pos ts) (hturns : ts.length < turns) :
    clause tokens turns pos depth = pure (ForHeader.clause depth ts,
      pos + (ForHeader.clause depth ts).elim ts.length fun r => r.1.length + 1) := by
  induction ts generalizing turns pos depth with
  | nil =>
    obtain ⟨turns, rfl⟩ := Nat.exists_eq_add_of_lt hturns
    rw [clause, h.next_nil]
    rfl
  | cons t rest ih =>
    obtain ⟨turns, rfl⟩ := Nat.exists_eq_add_of_lt hturns
    rw [clause, h.next_cons, ForHeader.clause]
    dsimp only
    split
    · rfl
    · next hend =>
      rw [depthBehind_eq fun hz => hend ⟨hz.1, .inr hz.2⟩, pure_bind,
        ih h.tail (by rw [List.length_cons]; omega), pure_bind, Nat.add_assoc, Nat.add_comm 1]
      -- the tokens end, or the clause is one text longer
      cases ForHeader.clause _ rest <;> rfl

theorem clauses_eq {most : Nat} (h : Stands tokens pos ts) (hturns : ts.length < turns) :
    clauses tokens turns most pos = pure ((ForHeader.clauses? most ts).map Prod.fst,
      pos + (ForHeader.clauses? most ts).elim ts.length Prod.snd) := by
  induction most generalizing pos ts with
  | zero => rfl
  | succ most ih =>
    rw [clauses, clause_eq h hturns, pure_bind, ForHeader.clauses?]
    cases hclause : ForHeader.clause 0 ts with
    | none => rfl
    | some r =>
      obtain ⟨texts, closed⟩ := r
      have hlt := ForHeader.length_lt_of_clause hclause
      dsimp only [Option.elim_some, Option.bind_some]
      split
      · rfl
      · have hall : (ts.drop (texts.length + 1)).length = ts.length - (texts.length + 1) :=
          List.length_drop
        rw [ih (h.skip hlt) (by rw [List.length_drop]; omega), pure_bind]
        cases ForHeader.clauses? most (ts.drop (texts.length + 1)) with
        | none =>
          show pure (none, pos + (texts.length + 1) + (ts.drop (texts.length + 1)).length) =
            pure (none, pos + ts.length)
          rw [Nat.add_assoc, hall, Nat.add_sub_cancel' hlt]
        | some r =>
          show pure (some (texts :: r.1), pos + (texts.length + 1) + r.2) =
            pure (some (texts :: r.1), pos + (texts.length + 1 + r.2))
          rw [Nat.add_assoc]

theorem header_eq (h : Stands tokens pos ts) (hturns : ts.length < turns) (style : HeaderStyle) :
    header tokens turns pos style = pure (landing pos (ForHeader.read style ts)) := by
  cases style with
  | positional =>
    have hfirst : tokens[pos + 1]? = ts[0]? := h.getElem? 0
    have hsecond : tokens[pos + 2]? = ts[1]? := h.getElem? 1
    have hthird : tokens[pos + 3]? = ts[2]? := h.getElem? 2
    rw [header, hfirst, hsecond, hthird]
    match ts with
    | [] => rfl
    | [_] => rfl
    | [_, _] => rfl
    | _ :: _ :: _ :: _ => rfl
  | structured =>
    rw [header]
    cases ts with
    | nil =>
      rw [h.next_nil]
      rfl
    | cons t rest =>
      rw [h.next_cons, ForHeader.read]
      dsimp only
      split
      · rw [clauses_eq h.tail (Nat.lt_of_succ_lt hturns), pure_bind, Nat.add_assoc, Nat.add_comm 1]
        cases ForHeader.clauses? 3 rest <;> rfl
      · rfl

theorem condition_eq (h : Stands tokens pos ts) (style : HeaderStyle) :
    condition tokens pos style = pure (landing pos (Condition.read style ts)) := by
  cases style with
  | structured => rfl
  | positional =>
    rw [condition]
    cases ts with
    | nil =>
      rw [h.next_nil]
      rfl
    | cons t rest =>
      rw [h.next_cons]
      rfl

/-! ## Brackets -/

theorem inside_cons (t : Token) (rest : List Token) : Subscript.inside (t :: rest) =
    if t.is "]" then [] else t :: Subscript.inside rest := by
  rw [Subscript.inside, List.takeWhile_cons]
  cases t.is "]" <;> rfl

theorem group_eq (h : Stands tokens pos ts) (hturns : ts.length < turns) :
    group tokens turns pos =
      pure (Subscript.inside ts, pos + min ((Subscript.inside ts).length + 1) ts.length) := by
  induction ts generalizing turns pos with
  | nil =>
    obtain ⟨turns, rfl⟩ := Nat.exists_eq_add_of_lt hturns
    rw [group, h.next_nil]
    rfl
  | cons t rest ih =>
    obtain ⟨turns, rfl⟩ := Nat.exists_eq_add_of_lt hturns
    rw [group, h.next_cons, inside_cons]
    dsimp only
    split
    · rw [List.length_nil, List.length_cons, Nat.min_eq_left (by omega)]
    · rw [ih h.tail (by rw [List.length_cons]; omega), pure_bind, List.length_cons,
        List.length_cons, Nat.add_min_add_right, Nat.add_assoc, Nat.add_comm 1]

theorem dimensions_eq (h : Stands tokens pos ts) (hturns : ts.length < turns) :
    dimensions tokens turns pos = pure (landing pos (Subscript.dimensions ts)) := by
  fun_induction Subscript.dimensions ts generalizing turns pos with
  | case1 =>
    obtain ⟨turns, rfl⟩ := Nat.exists_eq_add_of_lt hturns
    rw [dimensions, h.holds_next]
    rfl
  | case2 t rest hopen inside taken more n =>
    rename_i hmore ih
    obtain ⟨turns, rfl⟩ := Nat.exists_eq_add_of_lt hturns
    have hskip := h.tail.skip (Nat.min_le_right (inside.length + 1) rest.length)
    rw [dimensions, h.holds_next, if_pos (show nextIs (t :: rest) "[" from hopen),
      group_eq h.tail (by rw [List.length_cons]; omega), pure_bind]
    dsimp only
    rw [ih hskip (by rw [List.length_drop, List.length_cons]; omega), hmore, pure_bind]
    show pure (_, pos + 1 + taken + n) = pure (_, pos + (1 + taken + n))
    rw [Nat.add_assoc, Nat.add_assoc, Nat.add_assoc]
  | case3 t rest hopen =>
    obtain ⟨turns, rfl⟩ := Nat.exists_eq_add_of_lt hturns
    rw [dimensions, h.holds_next, if_neg (show ¬nextIs (t :: rest) "[" from hopen)]
    rfl

/-- The first closing bracket stands behind what is inside, if there is one. -/
theorem findIdx?_inside (ts : List Token) : ts.findIdx? (·.is "]") =
    if (Subscript.inside ts).length + 1 ≤ ts.length then some (Subscript.inside ts).length
    else none := by
  induction ts with
  | nil => rfl
  | cons t rest ih =>
    rw [List.findIdx?_cons, ih, inside_cons]
    split
    · simp
    · by_cases hclosed : (Subscript.inside rest).length + 1 ≤ rest.length
      · rw [if_pos hclosed, if_pos (by rw [List.length_cons, List.length_cons]; omega)]
        rfl
      · rw [if_neg hclosed, if_neg (by rw [List.length_cons, List.length_cons]; omega)]
        rfl

theorem subscripts_eq (h : Stands tokens pos ts) (hturns : ts.length < turns) (seen : Bool) :
    subscripts tokens turns (pos + 1) seen =
      pure ((Subscript.groups? ts).any fun n => seen || decide (0 < n)) := by
  have hclose : ∀ {t : Token}, t.is "[" → t.is "]" = false :=
    fun hopen => Token.is_eq_false_of_is hopen (by decide)
  fun_induction Subscript.groups? ts generalizing turns pos seen with
  | case1 =>
    obtain ⟨turns, rfl⟩ := Nat.exists_eq_add_of_lt hturns
    rw [subscripts, h.holds_next, h.holds_next]
    show pure (seen && false) = _
    rw [Bool.and_false]
    rfl
  | case2 t rest hopen taken htaken =>
    rename_i ih
    obtain ⟨turns, rfl⟩ := Nat.exists_eq_add_of_lt hturns
    rw [subscripts, h.holds_next, if_pos (show nextIs (t :: rest) "[" from hopen), h.range_next,
      pure_bind, List.findIdx?_cons, findIdx?_inside, if_pos htaken, hclose hopen]
    show subscripts tokens _ (pos + 1 + (taken + 1)) true = _
    rw [← Nat.add_assoc,
      ih (h.tail.skip htaken) (by rw [List.length_drop, List.length_cons]; omega)]
    cases Subscript.groups? (rest.drop taken) <;> simp
  | case3 t rest hopen taken =>
    rename_i htaken
    obtain ⟨turns, rfl⟩ := Nat.exists_eq_add_of_lt hturns
    rw [subscripts, h.holds_next, if_pos (show nextIs (t :: rest) "[" from hopen), h.range_next,
      pure_bind, List.findIdx?_cons, findIdx?_inside, if_neg htaken, hclose hopen]
    rfl
  | case4 t rest hopen hend =>
    obtain ⟨turns, rfl⟩ := Nat.exists_eq_add_of_lt hturns
    rw [subscripts, h.holds_next, if_neg (show ¬nextIs (t :: rest) "[" from hopen), h.holds_next]
    show pure (seen && t.is ";") = _
    rw [hend]
    simp
  | case5 t rest hopen hend =>
    obtain ⟨turns, rfl⟩ := Nat.exists_eq_add_of_lt hturns
    rw [subscripts, h.holds_next, if_neg (show ¬nextIs (t :: rest) "[" from hopen), h.holds_next]
    show pure (seen && t.is ";") = _
    rw [Bool.eq_false_iff.2 hend]
    simp

theorem subscripts_start_eq (h : Stands tokens pos ts) (hturns : ts.length < turns) :
    subscripts tokens turns (pos + 1) false = pure (Subscript.endsStatement ts) := by
  rw [subscripts_eq h hturns, Subscript.endsStatement]
  cases Subscript.groups? ts <;> simp

/-! ## Functions -/

/-- The parenthesis that closes a parameter list is at a position, unless the tokens end before. -/
theorem closing?_eq (h : Stands tokens pos ts) (hturns : ts.length < turns) (depth : Nat) :
    ∃ close, closing? tokens turns (pos + 1) depth = pure close ∧
      (∀ i ∈ close, i < tokens.length) ∧
      Construct.afterParameters depth ts = close.map fun i => tokens.drop (i + 1) := by
  induction ts generalizing turns pos depth with
  | nil =>
    obtain ⟨turns, rfl⟩ := Nat.exists_eq_add_of_lt hturns
    rw [closing?, h.next_nil]
    exact ⟨none, rfl, by simp, rfl⟩
  | cons t rest ih =>
    obtain ⟨turns, rfl⟩ := Nat.exists_eq_add_of_lt hturns
    have hrest : rest.length < (t :: rest).length + turns := by
      rw [List.length_cons]
      omega
    rw [closing?, h.next_cons, Construct.afterParameters]
    dsimp only
    split
    · exact ih h.tail hrest _
    split
    · by_cases hlast : depth ≤ 1
      · rw [if_pos hlast, if_pos (by omega)]
        refine ⟨some (pos + 1), rfl, ?_, ?_⟩
        · simpa using h.tail.lt
        · rw [Option.map_some, h.tail.drop]
      · rw [if_neg hlast, if_neg (by omega)]
        exact ih h.tail hrest _
    · exact ih h.tail hrest _

theorem hasBody_eq (h : Stands tokens pos ts) (hturns : ts.length < turns) :
    hasBody tokens turns (pos + 1) = pure (Construct.hasBody ts) := by
  obtain ⟨close, hclose, hlt, hafter⟩ := closing?_eq h hturns 0
  rw [hasBody, Construct.hasBody, hclose, pure_bind, hafter]
  cases close with
  | none => rfl
  | some i =>
    have hstands : Stands tokens i (tokens.drop (i + 1)) := ⟨hlt i rfl, rfl⟩
    dsimp only
    rw [hstands.range_next, pure_bind]
    rfl

theorem function_eq (h : Stands tokens pos ts) (hturns : ts.length < turns)
    (typeName name : String) : function tokens turns typeName name pos =
      pure (Construct.function typeName name ts, pos) := by
  rw [function, hasBody_eq h hturns, pure_bind, Construct.function]
  split <;> rfl

theorem declarator_eq (h : Stands tokens pos ts) (hturns : ts.length < turns)
    (typeName : String) : declarator tokens turns typeName pos =
      pure (landing pos (Construct.declarator typeName ts)) := by
  rw [declarator]
  cases ts with
  | nil =>
    rw [h.next_nil]
    rfl
  | cons t rest =>
    have hrest : rest.length < turns := Nat.lt_of_succ_lt hturns
    have hdimensions := dimensions_eq h hturns
    rw [h.next_cons, Construct.declarator]
    dsimp only
    rw [h.tail.holds_next, h.tail.holds_next]
    split
    · exact function_eq h.tail hrest typeName t.text
    split
    · rw [dimensions_eq h.tail hrest, pure_bind]
      dsimp only [landing]
      rw [Nat.add_assoc, Nat.add_comm 1]
    split
    · have hle := (Subscript.dimensions_le (t :: rest)).1
      generalize Subscript.dimensions (t :: rest) = r at hdimensions hle
      obtain ⟨sizes, n⟩ := r
      have hskip := h.skip hle
      rw [hdimensions, pure_bind]
      dsimp only at hskip ⊢
      cases hdrop : (t :: rest).drop n with
      | nil =>
        rw [hdrop] at hskip
        rw [hskip.next_nil]
      | cons name after =>
        have hafter : after.length < turns := by
          have hlength := congrArg List.length hdrop
          simp only [List.length_drop, List.length_cons] at hlength
          omega
        rw [hdrop] at hskip
        rw [hskip.next_cons, hskip.tail.holds_next]
        dsimp only
        split
        · split
          · rw [function_eq hskip.tail hafter]
            rfl
          · rfl
        · rfl
    split
    · rfl
    · rfl

theorem declaration_eq (h : Stands tokens pos ts) (hturns : ts.length < turns)
    (typeName : String) : declaration tokens turns typeName pos =
      pure (landing pos (Construct.declaration typeName ts)) := by
  rw [declaration, h.range_next, pure_bind, Construct.declaration]
  dsimp only
  obtain ⟨stars, hstars⟩ : ∃ stars, (ts.takeWhile (·.is "*")).length = stars := ⟨_, rfl⟩
  have hle : stars ≤ ts.length := hstars ▸ (List.takeWhile_prefix _).length_le
  rw [hstars, h.getElem?]
  split
  · next hname =>
    rw [if_pos hname.2, declarator_eq (h.skip hle) (by rw [List.length_drop]; omega)]
    dsimp only [landing]
    rw [Nat.add_assoc]
  · next hname =>
    have hskipped : (if ts[stars]?.any Token.isIdentifier then stars else 0) = 0 := by
      split
      · next hidentifier =>
        by_contra hstar
        exact hname ⟨Nat.pos_of_ne_zero hstar, hidentifier⟩
      · rfl
    rw [hskipped, declarator_eq h hturns]
    dsimp only [landing]
    rw [Nat.zero_add]
    rfl

/-! ## Calls -/

/-- At least the parenthesis at the beginning of the arguments is open. -/
theorem depthBehind_succ (h : ¬(depth = 0 ∧ t.is ")")) : depthBehind t (depth + 1) =
    pure ((if t.is "(" then depth + 1 else if t.is ")" then depth - 1 else depth) + 1) := by
  rw [depthBehind_eq fun hz => Nat.succ_ne_zero depth hz.1]
  congr 1
  split
  · rfl
  · split
    · next hclose =>
      have hdepth : depth ≠ 0 := fun hz => h ⟨hz, hclose⟩
      omega
    · rfl

theorem arguments_eq (h : Stands tokens pos ts) (hturns : ts.length < turns) :
    arguments d tokens turns pos (depth + 1) =
      pure (landing pos (Arguments.read d depth ts)) := by
  fun_induction Arguments.read d depth ts generalizing turns pos with
  | case1 =>
    obtain ⟨turns, rfl⟩ := Nat.exists_eq_add_of_lt hturns
    rw [arguments, h.next_nil]
    rfl
  | case2 depth t rest hstop =>
    obtain ⟨turns, rfl⟩ := Nat.exists_eq_add_of_lt hturns
    rw [arguments, h.next_cons]
    dsimp only
    rw [if_pos (by simpa using hstop)]
    rfl
  | case3 depth t rest hstop hclose =>
    obtain ⟨turns, rfl⟩ := Nat.exists_eq_add_of_lt hturns
    obtain ⟨rfl, hclose⟩ := hclose
    have hinner : depthBehind t 1 = pure 0 := by
      rw [depthBehind, Token.is, Token.is, beq_iff_eq.1 hclose]
      rfl
    rw [arguments, h.next_cons]
    dsimp only
    rw [if_neg (by simpa using hstop), hinner, pure_bind, if_pos ⟨hclose, rfl⟩]
  | case4 depth t rest hstop hclose inner hcall nested n hnested more m hmore ih =>
    rename_i ih'
    obtain ⟨turns, rfl⟩ := Nat.exists_eq_add_of_lt hturns
    have hinner : depthBehind t (depth + 1) = pure (inner + 1) := depthBehind_succ hclose
    cases rest with
    | nil =>
      rw [show nextIs [] "(" = false from rfl, Bool.and_false] at hcall
      cases hcall
    | cons u rest =>
      have hn : n ≤ rest.length := by
        have hle := Arguments.read_le d 0 rest
        rwa [show Arguments.read d 0 rest = (nested, n) from hnested] at hle
      have hlast : pos + 2 + n + m = pos + (n + m + 2) := by omega
      have hrest : rest.length < (t :: u :: rest).length + turns := by
        rw [List.length_cons, List.length_cons]
        omega
      have hmany : (rest.drop n).length < (t :: u :: rest).length + turns := by
        rw [List.length_drop]
        omega
      rw [arguments, h.next_cons]
      dsimp only
      rw [if_neg (by simpa using hstop), hinner, pure_bind,
        if_neg fun hz => Nat.succ_ne_zero inner hz.2, h.tail.holds_next, if_pos hcall,
        ih h.tail.tail hrest, hnested, pure_bind]
      dsimp only
      rw [ih' (h.tail.tail.skip hn) hmany, hmore, pure_bind]
      dsimp only
      rw [hlast]
  | case5 depth t rest hstop hclose inner hcall more m hmore =>
    rename_i ih
    obtain ⟨turns, rfl⟩ := Nat.exists_eq_add_of_lt hturns
    have hinner : depthBehind t (depth + 1) = pure (inner + 1) := depthBehind_succ hclose
    rw [arguments, h.next_cons]
    dsimp only
    rw [if_neg (by simpa using hstop), hinner, pure_bind,
      if_neg fun hz => Nat.succ_ne_zero inner hz.2, h.tail.holds_next, if_neg hcall,
      ih h.tail (by rw [List.length_cons]; omega), hmore, pure_bind]
    dsimp only
    rw [Nat.add_assoc, Nat.add_comm 1]

theorem isDefinition_eq (h : Stands tokens pos ts) (hturns : ts.length < turns) :
    isDefinition d tokens turns pos =
      pure ((previous? tokens pos).any (Construct.endsType d.grammar) && Construct.hasBody ts) := by
  rw [isDefinition, hasBody_eq h hturns]
  cases (previous? tokens pos).any (Construct.endsType d.grammar) <;> rfl

theorem callSite_eq (h : Stands tokens pos ts) (hturns : ts.length < turns)
    (hopen : nextIs ts "(") (name : String) : callSite d tokens turns name pos =
      pure (landing pos (Construct.callSite d (previous? tokens pos) name ts)) := by
  rw [callSite, isDefinition_eq h hturns, pure_bind, Construct.callSite]
  split
  · rfl
  split
  · rfl
  split
  · rfl
  cases ts with
  | nil => cases hopen
  | cons t rest =>
    rw [arguments_eq h.tail (Nat.lt_of_succ_lt hturns), pure_bind]
    show pure (_, pos + 1 + (Arguments.read d 0 rest).2) =
      pure (_, pos + ((Arguments.read d 0 rest).2 + 1))
    rw [Nat.add_assoc, Nat.add_comm 1]
    rfl

/-! ## Every construct -/

theorem isSubscripted_eq (h : Stands tokens pos ts) (hturns : ts.length < turns) (t : Token) :
    isSubscripted tokens turns t pos =
      pure (t.isIdentifier && Construct.beginsStatement (previous? tokens pos) &&
        Subscript.endsStatement ts) := by
  rw [isSubscripted, subscripts_start_eq h hturns]
  cases t.isIdentifier && Construct.beginsStatement (previous? tokens pos) <;> rfl

theorem plain_eq (h : Stands tokens pos ts) (hturns : ts.length < turns) (t : Token) :
    plain d tokens turns t pos =
      pure (landing pos (Construct.plain d (previous? tokens pos) t ts)) := by
  rw [plain, h.holds_next, isSubscripted_eq h hturns, pure_bind, Construct.plain]
  split
  · rfl
  split
  · next hcall => exact callSite_eq h hturns (Bool.and_eq_true_iff.1 hcall).2 t.text
  split
  · rw [dimensions_eq h hturns, pure_bind]
  · rfl

theorem keyword_eq (h : Stands tokens pos ts) (hturns : ts.length < turns) (text : String)
    (action : KeywordAction) : keyword d tokens turns text pos action =
      pure (landing pos (Construct.keyword d.grammar (previous? tokens pos) text ts action)) := by
  cases action with
  | forLoop =>
    rw [keyword, header_eq h hturns, pure_bind]
    rfl
  | whileLoop =>
    rw [keyword, condition_eq h, pure_bind]
    rfl
  | typeDeclaration => exact declaration_eq h hturns text
  | newInstance =>
    cases ts with
    | nil =>
      rw [keyword, h.next_nil]
      rfl
    | cons t rest =>
      rw [keyword, h.next_cons, Construct.keyword.eq_def]
      dsimp only
      split <;> rfl
  | _ => rfl

/-- At every position the walk finds the construct that begins there. -/
theorem construct_eq (h : Stands tokens pos ts) (hturns : ts.length < turns) (t : Token) :
    construct d tokens turns t pos =
      pure (landing pos (Construct.read d (previous? tokens pos) t ts)) := by
  unfold construct Construct.read
  cases t.kind with
  | keyword =>
    dsimp only
    cases d.grammar.action? t.text with
    | none => exact plain_eq h hturns t
    | some action => exact keyword_eq h hturns t.text action
  | unknown => rfl
  | _ => exact plain_eq h hturns t

end Indexed

end GrowthOrder
