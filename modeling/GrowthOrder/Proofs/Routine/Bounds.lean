import GrowthOrder.Proofs.Routine.Reading
import GrowthOrder.Proofs.Time.Recursion

/-!
# The bounds of functions that call themselves

A function that calls itself twice or more takes exponential time. If it calls itself once, with
`n - 1` among the arguments, it takes a power: the depth of its loops or one more than the number of
loops around the call, whichever is greater, cut off at the third. If it calls itself once in any
other way its time is not known. Its memory is linear in every case.
-/
namespace GrowthOrder

open Program (block declaration key mark)

namespace Program

theorem cost_block (self : Cost) (kind : NodeKind) (label : String) (before : List String)
    (body : Forest) :
    (block kind label before body).cost self = kind.cost self (body.cost self) := by
  simp only [block, Forest.cost, Forest.cost_append, Forest.cost_expressions,
    Cost.power_zero_join, Cost.join_power_zero]

theorem selfCalls_block {kind : NodeKind} (hk : kind.isScope) (hf : kind.isFunction = false)
    (name label : String) (before : List String) (body : Forest) :
    (block kind label before body).selfCalls name = body.selfCalls name := by
  have hcall : kind ≠ .recursiveCall name := by
    rintro rfl
    cases hk
  simp [block, Forest.selfCalls, Forest.selfCalls_append, Forest.selfCalls_expressions, hf, hcall]

end Program

namespace Sentence

variable {g : Grammar}

theorem forest_call (name : String) (inner rest : Sentence g) : (call inner rest).forest name =
    .cons (.recursiveCall name) (some (Arguments.callText name (inner.arguments name).parts))
      (inner.forest name) (rest.forest name) := by
  have hkind : Arguments.callKind (some name) name = .recursiveCall name := if_pos rfl
  rw [forest, arguments, Arguments.forest, hkind]
  rfl

/-- Calls in the arguments of a call add nothing to its cost. -/
theorem cost_forest (name : String) (self : Cost) (s : Sentence g) :
    (s.forest name).cost self = .sum (s.calls.map fun _ => self) := by
  induction s with
  | nil => rfl
  | word token simple rest ih =>
    have hword : ((word token simple rest).forest name).cost self =
        (Cost.power 0).join ((rest.forest name).cost self) := rfl
    rw [hword, Cost.power_zero_join, ih, calls]
  | call inner rest _ ihr =>
    have hsum : Cost.sum ((call inner rest).calls.map fun _ => self) =
        self.join (.sum ((inner.calls ++ rest.calls).map fun _ => self)) := rfl
    rw [forest_call, Forest.cost, ihr, hsum, List.map_append, Cost.sum_append, ← Cost.join_assoc,
      Cost.join_sum_self]
    rfl

theorem selfCalls_forest (name : String) (s : Sentence g) : (s.forest name).selfCalls name =
    s.calls.map fun a => Arguments.callText name (a.arguments name).parts := by
  induction s with
  | nil => rfl
  | word token simple rest ih => exact ih
  | call inner rest ihi ihr =>
    rw [forest_call, Forest.selfCalls, ihi, ihr, calls]
    simp [NodeKind.isFunction]

theorem collect_forest (name : String) (s : Sentence g) :
    (s.forest name).collect (Option.guard NodeKind.isFunction) = [] := by
  induction s with
  | nil => rfl
  | word token simple rest ih => exact ih
  | call inner rest ihi ihr =>
    rw [forest_call, Forest.collect, ihi, ihr]
    rfl

end Sentence

namespace Routine

variable {g : Grammar}

/-- The costs of the calls, each raised by the loops around it. -/
def callCosts (self : Cost) (calls : List (Nat × Sentence g)) : Cost :=
  .sum (calls.map fun c => self.raise c.1)

theorem callCosts_append (self : Cost) (cs cs' : List (Nat × Sentence g)) :
    callCosts self (cs ++ cs') = (callCosts self cs).join (callCosts self cs') := by
  rw [callCosts, List.map_append, Cost.sum_append, callCosts, callCosts]

theorem callCosts_singleton (self : Cost) (c : Nat × Sentence g) :
    callCosts self [c] = self.raise c.1 :=
  Cost.join_power_zero _

theorem callCosts_exponential {cs : List (Nat × Sentence g)} (h : cs ≠ []) :
    callCosts .exponential cs = .exponential := by
  obtain ⟨c, hc⟩ := List.exists_mem_of_ne_nil cs h
  refine Cost.sum_eq_exponential (fun x hx => ?_) (List.mem_map.2 ⟨c, hc, rfl⟩)
  obtain ⟨c, -, rfl⟩ := List.mem_map.1 hx
  rfl

/-- A loop around statements and the calls in them. -/
theorem raise_join_callCosts (self : Cost) (depth : Nat) (cs : List (Nat × Sentence g)) :
    ((Cost.power depth).join (callCosts self cs)).raise 1 =
      (Cost.power (depth + 1)).join (callCosts self (cs.map deeper)) := by
  have hmap : (cs.map fun c => self.raise c.1).map (Cost.raise 1) =
      (cs.map deeper).map fun c => self.raise c.1 := by
    rw [List.map_map, List.map_map]
    exact List.map_congr_left fun c _ => Cost.raise_raise _ _ _
  rw [Cost.raise_join, callCosts, Cost.raise_sum, hmap, ← Cost.join_assoc, callCosts]
  congr 1
  simp [Cost.raise, Cost.join]

theorem cost_leadingForest (self : Cost) (returns : Bool) :
    (leadingForest returns).cost self = .power 0 := by
  cases returns <;> rfl

theorem selfCalls_leadingForest (name : String) (returns : Bool) :
    (leadingForest returns).selfCalls name = [] := by
  cases returns <;> rfl

/-- A body costs the power of its loops and, with the loops around them, its calls. -/
theorem cost_forest (name : String) (self : Cost) (p : Routine g) :
    (p.forest name).cost self = (Cost.power p.loopDepth).join (callCosts self p.calls) := by
  induction p with
  | nil => rfl
  | statement returns sentence rest ih =>
    have hcalls : callCosts self (sentence.calls.map (0, ·)) =
        .sum (sentence.calls.map fun _ => self) := by
      simp only [callCosts, List.map_map, Function.comp_def, Cost.raise_zero]
    rw [forest, Forest.cost_append, Forest.cost_append, Forest.cost_append, cost_leadingForest,
      Sentence.cost_forest, Forest.cost_expressions, ih, Cost.power_zero_join, Cost.power_zero_join,
      calls, callCosts_append, hcalls, loopDepth, ← Cost.join_assoc, Cost.join_power_comm,
      Cost.join_assoc]
  | whileLoop condition body rest ihb ihr | forLoop hg i c u body rest ihb ihr =>
    rw [forest, Forest.cost_append, Program.cost_block, NodeKind.cost, ihb, ihr,
      raise_join_callCosts, Cost.join_power_join, calls, callCosts_append, loopDepth]
  | doLoop body condition rest ihb ihr =>
    rw [forest, Forest.cost_append, Forest.cost_append, Forest.cost_expressions,
      Cost.power_zero_join, Program.cost_block, NodeKind.cost, ihb, ihr, raise_join_callCosts,
      Cost.join_power_join, calls, callCosts_append, loopDepth]
  | branch condition body rest ihb ihr =>
    rw [forest, Forest.cost_append, Program.cost_block, NodeKind.cost, ihb, ihr,
      Cost.join_power_join, calls, callCosts_append, loopDepth]
  | branchElse condition body other rest ihb iho ihr =>
    rw [forest, Forest.cost_append, Forest.cost_append, Program.cost_block, Program.cost_block,
      NodeKind.cost, NodeKind.cost, ihb, iho, ihr, Cost.join_power_join, Cost.join_power_join,
      calls, callCosts_append, callCosts_append, loopDepth]

theorem selfCalls_forest (name : String) (p : Routine g) : (p.forest name).selfCalls name =
    p.calls.map fun c => Arguments.callText name (c.2.arguments name).parts := by
  have hdeeper : ∀ cs : List (Nat × Sentence g), (cs.map deeper).map (fun c =>
      Arguments.callText name (c.2.arguments name).parts) =
        cs.map fun c => Arguments.callText name (c.2.arguments name).parts :=
    fun cs => List.map_map
  induction p with
  | nil => rfl
  | statement returns sentence rest ih =>
    simp only [forest, Forest.selfCalls_append, selfCalls_leadingForest, Sentence.selfCalls_forest,
      Forest.selfCalls_expressions, ih, calls, List.map_append, List.map_map, List.nil_append]
    rfl
  | whileLoop condition body rest ihb ihr | forLoop hg i c u body rest ihb ihr =>
    rw [forest, Forest.selfCalls_append, Program.selfCalls_block rfl rfl, ihb, ihr, calls,
      List.map_append, hdeeper]
  | doLoop body condition rest ihb ihr =>
    rw [forest, Forest.selfCalls_append, Forest.selfCalls_append, Forest.selfCalls_expressions,
      Program.selfCalls_block rfl rfl, ihb, ihr, calls, List.map_append, hdeeper, List.nil_append]
  | branch condition body rest ihb ihr =>
    rw [forest, Forest.selfCalls_append, Program.selfCalls_block rfl rfl, ihb, ihr, calls,
      List.map_append]
  | branchElse condition body other rest ihb iho ihr =>
    rw [forest, Forest.selfCalls_append, Forest.selfCalls_append, Program.selfCalls_block rfl rfl,
      Program.selfCalls_block rfl rfl, ihb, iho, ihr, calls, List.map_append, List.map_append]

theorem collect_forest (name : String) (p : Routine g) :
    (p.forest name).collect (Option.guard NodeKind.isFunction) = [] := by
  have he := Forest.collect_expressions (f := Option.guard NodeKind.isFunction) rfl
  induction p with
  | nil => rfl
  | statement returns sentence rest ih =>
    have hleading : (leadingForest returns).collect (Option.guard NodeKind.isFunction) = [] := by
      cases returns <;> rfl
    simp only [forest, Forest.collect_append, hleading, Sentence.collect_forest, he, ih,
      List.append_nil]
  | whileLoop condition body rest ihb ihr | forLoop hg i c u body rest ihb ihr
  | branch condition body rest ihb ihr =>
    rw [forest, Forest.collect_append, Program.collect_block rfl rfl, ihb, ihr]
    rfl
  | doLoop body condition rest ihb ihr =>
    rw [forest, Forest.collect_append, Forest.collect_append, Program.collect_block rfl rfl, he,
      ihb, ihr]
    rfl
  | branchElse condition body other rest ihb iho ihr =>
    rw [forest, Forest.collect_append, Forest.collect_append, Program.collect_block rfl rfl,
      Program.collect_block rfl rfl, ihb, iho, ihr]
    rfl

end Routine

/-! ## The texts of calls -/

namespace Sentence

variable {d : Dialect} {f : FunctionName d}

theorem lexeme_mark {g : Grammar} {text : String} (h : text ∈ ["(", ")", ",", "."]) :
    Lexeme g (mark text) := by
  have hall : ∀ text ∈ ["(", ")", ",", "."], (text, SymbolKind.separator) ∈ g.symbols := by
    cases g <;> decide
  exact .symbol (hall text h)

theorem lexeme_of_isSimple {g : Grammar} {t : Token} (h : t.IsSimple g) : Lexeme g t := by
  rcases h with ⟨⟨source, hmem⟩, -⟩ | rfl | rfl
  · exact Scan.lexeme_of_mem_tokens hmem
  · exact lexeme_mark (by decide)
  · exact lexeme_mark (by decide)

theorem lexeme_of_mem_tokens (s : Sentence d.grammar) {t : Token} (h : t ∈ s.tokens f.text) :
    Lexeme d.grammar t := by
  induction s with
  | nil => cases h
  | word token simple rest ih =>
    rcases List.mem_cons.1 h with rfl | h
    · exact lexeme_of_isSimple simple
    · exact ih h
  | call inner rest ihi ihr =>
    obtain ⟨source, hname⟩ := f.scanned
    simp only [tokens, List.mem_cons, List.mem_append] at h
    rcases h with rfl | rfl | h | rfl | h
    · exact Scan.lexeme_of_mem_tokens hname
    · exact lexeme_mark (by decide)
    · exact ihi h
    · exact lexeme_mark (by decide)
    · exact ihr h

/-- The text of a call shows `n - 1` where three tokens of its arguments do. -/
theorem isDecrementing_iff (s : Sentence d.grammar)
    (h : ∀ t ∈ s.tokens f.text, t.isQuoted = false) :
    isDecrementing f.text (Arguments.callText f.text (s.arguments f.text).parts) ↔
      ["n", "-", "1"] <:+: (s.tokens f.text).map (·.text) := by
  rw [Arguments.isDecrementing_callText, texts_arguments]
  intro text htext
  rw [texts_arguments] at htext
  obtain ⟨t, ht, rfl⟩ := List.mem_map.1 htext
  exact Decrement.isSymbol_or_isWord (s.lexeme_of_mem_tokens ht) (h t ht)

end Sentence

/-! ## Functions -/

namespace Definition

variable {d : Dialect}

theorem cost_inside (self : Cost) (f : Definition d) : f.inside.cost self =
    (Cost.power f.body.loopDepth).join (Routine.callCosts self f.body.calls) := by
  have hparameter : (declaration (numberType d.grammar) (parameter d.grammar)).cost self =
      .power 0 := rfl
  simp only [inside, Forest.cost_append, Forest.cost_expressions, hparameter, Cost.power_zero_join,
    Cost.join_power_zero, Routine.cost_forest]

theorem selfCalls_inside (f : Definition d) : f.inside.selfCalls f.name.text =
    f.body.calls.map fun c => Arguments.callText f.name.text (c.2.arguments f.name.text).parts := by
  have hparameter : (declaration (numberType d.grammar) (parameter d.grammar)).selfCalls
      f.name.text = [] := rfl
  simp only [inside, Forest.selfCalls_append, Forest.selfCalls_expressions, hparameter,
    Routine.selfCalls_forest, List.nil_append, List.append_nil]

theorem collect_inside (f : Definition d) :
    f.inside.collect (Option.guard NodeKind.isFunction) = [] := by
  have he := Forest.collect_expressions (f := Option.guard NodeKind.isFunction) rfl
  have hparameter : (declaration (numberType d.grammar) (parameter d.grammar)).collect
      (Option.guard NodeKind.isFunction) = [] := rfl
  simp only [inside, Forest.collect_append, he, hparameter, Routine.collect_forest,
    List.append_nil]

/-- A function is read as a tree that is made of it. -/
theorem exists_single (f : Definition d) :
    ∃ t, SyntaxTree.ofTokens d f.tokens = .ok t ∧ t.Single f.name.text f.inside := by
  let s : Spine := (Spine.root .nil).add f.forest
  obtain ⟨t, ht, hbare⟩ := (Passes.definition f (.root .nil)).exists_tree
  have hforest : s.forest = f.forest := Forest.append_nil _
  have hgrown : s.builder.finish.Grown f.forest := hforest ▸ s.grown_finish
  exact ⟨t, ht, SyntaxTree.arranged_ofTokens ht, ⟨_, hbare, hgrown⟩, f.collect_inside⟩

/-- A function that calls itself is read. Two calls or more make its time exponential. A single
call with `n - 1` among its arguments makes it a power, of the depth of its loops or of one more
than the loops around the call, cut off at three; any other single call makes it unknown. In every
case its memory is linear. -/
theorem recursion_bounds (f : Definition d) :
    ∃ t, SyntaxTree.ofTokens d f.tokens = .ok t ∧
      (2 ≤ f.body.calls.length → t.time = .ok (.known .exponential)) ∧
      (∀ e a, f.body.calls = [(e, a)] → (∀ w ∈ a.tokens f.name.text, w.isQuoted = false) →
        (["n", "-", "1"] <:+: (a.tokens f.name.text).map (·.text) →
          t.time = .ok (.known (.polynomial (min 3 (max f.body.loopDepth (1 + e))).toUInt32))) ∧
        (¬ ["n", "-", "1"] <:+: (a.tokens f.name.text).map (·.text) →
          t.time = .ok (.unknown (.recursion f.name.text)))) ∧
      (f.body.calls ≠ [] → ∃ s, t.space = .ok s ∧ s.recursive = true ∧ s.bound = .linear) := by
  obtain ⟨t, hread, hsingle⟩ := f.exists_single
  refine ⟨t, hread, ?_, ?_, ?_⟩
  · intro htwo
    have hrule : Cost.exponential.time =
        SyntaxTree.recursionBound f.name.text (f.inside.selfCalls f.name.text) := by
      rw [selfCalls_inside, SyntaxTree.recursionBound_of_two_le (by rwa [List.length_map])]
      rfl
    have hne : f.body.calls ≠ [] := List.length_pos_iff.1 (by omega)
    rw [hsingle.time_eq hrule, cost_inside, Routine.callCosts_exponential hne]
    rfl
  · intro e a hcalls hquoted
    have hself := f.selfCalls_inside
    rw [hcalls, List.map_singleton] at hself
    have hdecrement := a.isDecrementing_iff hquoted
    constructor
    · intro hinfix
      have hrule : (Cost.power 1).time =
          SyntaxTree.recursionBound f.name.text (f.inside.selfCalls f.name.text) := by
        rw [hself, SyntaxTree.recursionBound, if_pos (hdecrement.2 hinfix)]
        rfl
      rw [hsingle.time_eq hrule, cost_inside, hcalls, Routine.callCosts_singleton]
      rfl
    · intro hno
      have hrule : (Cost.unknown (.recursion f.name.text)).time =
          SyntaxTree.recursionBound f.name.text (f.inside.selfCalls f.name.text) := by
        rw [hself, SyntaxTree.recursionBound, if_neg (mt hdecrement.1 hno)]
        rfl
      rw [hsingle.time_eq hrule, cost_inside, hcalls, Routine.callCosts_singleton]
      rfl
  · intro hcalls
    refine hsingle.exists_space ?_
    rwa [selfCalls_inside, ne_eq, List.map_eq_nil_iff]

/-- A call with a decreased argument inside a loop. -/
theorem recursion_bounds_loop :
    ∃ t, SyntaxTree.ofTokens { grammar := .cLike } (Grammar.tokenize .cLike
        "int f(int n) \x7b while (n) \x7b f(n - 1); \x7d \x7d") = .ok t ∧
      t.time = .ok (.known (.polynomial 2)) ∧
      ∃ s, t.space = .ok s ∧ s.recursive = true ∧ s.bound = .linear := by
  have htokens : Grammar.tokenize .cLike "int f(int n) \x7b while (n) \x7b f(n - 1); \x7d \x7d" =
      [key "int", ⟨.identifier, "f"⟩, mark "(", key "int", ⟨.identifier, "n"⟩, mark ")",
        mark "\x7b", key "while", mark "(", ⟨.identifier, "n"⟩, mark ")", mark "\x7b",
        ⟨.identifier, "f"⟩, mark "(", ⟨.identifier, "n"⟩, ⟨.operator, "-"⟩, ⟨.literal, "1"⟩,
        mark ")", mark ";", mark "\x7d", mark "\x7d"] := by
    cbv
  have hscanned : ∀ w : Token, w ∈ Grammar.tokenize .cLike
      "int f(int n) \x7b while (n) \x7b f(n - 1); \x7d \x7d" → w.Scanned .cLike :=
    fun w hw => ⟨_, hw⟩
  rw [htokens] at hscanned
  have hn : (Token.mk .identifier "n").IsSimple .cLike := .inl ⟨hscanned _ (by decide), .inl rfl⟩
  have hminus : (Token.mk .operator "-").IsSimple .cLike :=
    .inl ⟨hscanned _ (by decide), .inr (.inr rfl)⟩
  have hone : (Token.mk .literal "1").IsSimple .cLike :=
    .inl ⟨hscanned _ (by decide), .inr (.inl rfl)⟩
  let condition : Phrase .cLike := ⟨[⟨.identifier, "n"⟩], List.forall_mem_singleton.2 hn⟩
  let argument : Sentence .cLike := .word _ hn (.word _ hminus (.word _ hone .nil))
  let f : Definition { grammar := .cLike } :=
    { type := ⟨"int", rfl⟩
      name := ⟨"f", hscanned _ (by decide), by decide, by decide⟩
      body := .whileLoop condition (.statement false (.call argument .nil) .nil) .nil }
  have hargument : argument.tokens "f" =
      [⟨.identifier, "n"⟩, ⟨.operator, "-"⟩, ⟨.literal, "1"⟩] := rfl
  have hquoted : ∀ w ∈ argument.tokens "f", w.isQuoted = false := by
    rw [hargument]
    decide
  obtain ⟨t, hread, -, hsingle, hspace⟩ := f.recursion_bounds
  have htime := (hsingle 1 argument rfl hquoted).1 ⟨[], [], rfl⟩
  rw [htokens]
  exact ⟨t, hread, htime, hspace (List.cons_ne_nil _ _)⟩

end Definition

end GrowthOrder
