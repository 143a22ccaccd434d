import GrowthOrder.Proofs.Draft.Spine

/-!
# What a construct does to a draft

A construct that is added without an error puts nodes into the innermost scope, opens a scope,
closes one, or is the trailer of a do-loop. Seen on spines these are the moves below. Every tree
that is read comes from a run of moves by constructs that the reader can produce, so what holds of
the empty spine and is kept by such moves holds of a spine that has the tree.
-/
namespace GrowthOrder

namespace Construct

/-- The nodes that a construct puts into the innermost scope, where it leaves the scopes alone. -/
def nodes? (enclosing : Option String) : Construct → Option Forest
  | leaf kind label => some (.leaf kind label)
  | forLoop label (.clauses texts) =>
    some (.cons (.loop .forLoop (ForHeader.slots texts)) (some label)
      (.clauses ForHeader.clauseKinds texts) .nil)
  | forLoop label .absent => some (.leaf (.loop .forLoop {}) label)
  | typedArray typeName name dimensions =>
    some (.cons
      (.typeDeclaration
        { typeName, name, isArray := true, isTwoDimensional := dimensions.length == 2 })
      (some typeName) (.array (name.getD typeName) dimensions) .nil)
  | bareArray name dimensions => some (.array name dimensions)
  | call name arguments =>
    some (.cons (Arguments.callKind enclosing name)
      (some (Arguments.callText name arguments.parts)) (arguments.forest enclosing) .nil)
  | _ => none

/-- The scope that a construct opens. -/
def scope? : Construct → Option (NodeKind × String)
  | scope kind label => some (kind, label)
  | forLoop label (.positional initialization condition update) =>
    some (.loop .forLoop
      { initialization := some initialization, condition := some condition,
        update := some update }, label)
  | whileLoop label _ .unread => some (.loop .whileLoop {}, label)
  | whileLoop label _ (.token text) => some (.loop .whileLoop { condition := some text }, label)
  | _ => none

end Construct

namespace Draft

variable {x y : Draft} {c : Construct} {s : Spine}

theorem kind_of_pendingDo? {afterBrace : Bool} {id : Nat} (h : x.pendingDo? afterBrace = some id) :
    afterBrace = true ∧ x.lastClosed = some id ∧
      ∃ header, x.builder.tree.kind id = .loop .doWhile header := by
  unfold pendingDo? at h
  split at h
  · next hb =>
    obtain ⟨hl, hk⟩ := Option.filter_eq_some_iff.1 h
    split at hk
    · next header hkind => exact ⟨hb, hl, header, hkind⟩
    · cases hk
  · cases h

/-- The condition of a do-loop does not show in the bare builder. -/
theorem bare_addTrailer {id : Nat} {header : LoopHeader} {condition : Condition}
    (hk : x.builder.tree.kind id = .loop .doWhile header)
    (h : x.addTrailer id condition = .ok y) :
    y.builder.bare = x.builder.bare ∧ y.lastClosed = none := by
  cases condition with
  | unread =>
    cases h
    exact ⟨rfl, rfl⟩
  | token text =>
    cases h
    refine ⟨?_, rfl⟩
    rw [Builder.bare, Builder.bare]
    exact congrArg (Builder.mk · x.builder.scopes) (SyntaxTree.bare_amend hk text)
  | cut => cases h

/-- A closing brace is a node of its own and closes the scope in which it stands. -/
theorem add_close (x : Draft) : ∃ y, x.add .close = .ok y ∧
    y.builder = (x.builder.leaf .expression (some "\x7d")).leave.2 ∧
    y.lastClosed = x.builder.scopes.head? := by
  refine ⟨_, rfl, rfl, ?_⟩
  change (Builder.leave _).1 = _
  rw [Builder.leave_eq]
  rfl

theorem add_cases (h : x.add c = .ok y) :
    (∃ F, c.nodes? x.enclosing? = some F ∧ y = x.graft F) ∨
    (∃ kind label, c.scope? = some (kind, label) ∧ y = x.enter kind label) ∨
    (c = .close ∧ y.builder = (x.builder.leaf .expression (some "\x7d")).leave.2 ∧
      y.lastClosed = x.builder.scopes.head?) ∨
    (∃ label condition id, c = .whileLoop label true condition ∧
      x.pendingDo? true = some id ∧ y.builder.bare = x.builder.bare ∧ y.lastClosed = none) := by
  cases c with
  | leaf kind label =>
    cases h
    exact .inl ⟨_, rfl, rfl⟩
  | scope kind label =>
    cases h
    exact .inr (.inl ⟨_, _, rfl, rfl⟩)
  | close =>
    obtain ⟨z, hz, hb, hl⟩ := add_close x
    obtain rfl := Except.ok.inj (h.symm.trans hz)
    exact .inr (.inr (.inl ⟨rfl, hb, hl⟩))
  | forLoop label header =>
    cases header with
    | positional i c u =>
      cases h
      exact .inr (.inl ⟨_, _, rfl, rfl⟩)
    | clauses texts =>
      cases h
      exact .inl ⟨_, rfl, rfl⟩
    | absent =>
      cases h
      exact .inl ⟨_, rfl, rfl⟩
    | cut => cases h
  | whileLoop label afterBrace condition =>
    rw [add] at h
    split at h
    · next id hp =>
      obtain ⟨rfl, -, header, hk⟩ := kind_of_pendingDo? hp
      exact .inr (.inr (.inr ⟨_, _, id, rfl, hp, bare_addTrailer hk h⟩))
    · cases condition with
      | unread =>
        cases h
        exact .inr (.inl ⟨_, _, rfl, rfl⟩)
      | token text =>
        cases h
        exact .inr (.inl ⟨_, _, rfl, rfl⟩)
      | cut => cases h
  | typedArray typeName name dimensions =>
    cases h
    exact .inl ⟨_, rfl, rfl⟩
  | bareArray name dimensions =>
    cases h
    exact .inl ⟨_, rfl, rfl⟩
  | call name arguments =>
    cases h
    exact .inl ⟨_, rfl, rfl⟩

end Draft

/-- The name of the function around the innermost scope. -/
def Spine.enclosing? (s : Spine) : Option String :=
  NodeKind.enclosingName s.kinds

/-- What a construct can do to a spine. -/
inductive Spine.Move (s : Spine) (c : Construct) : Spine → Prop
  | add {F : Forest} : c.nodes? s.enclosing? = some F → Move s c (s.add F)
  | enter {kind : NodeKind} {label : String} : c.scope? = some (kind, label) →
      Move s c (.scope s kind (some label) .nil)
  | close : c = .close → Move s c (s.add (.leaf .expression "\x7d")).close
  | trailer {label : String} {condition : Condition} : c = .whileLoop label true condition →
      Move s c s

namespace Draft

variable {x y : Draft} {c : Construct} {s : Spine}

/-- The draft has the nodes of the spine, but for the conditions of do-loops. -/
def Follows (x : Draft) (s : Spine) : Prop :=
  x.builder.bare = s.builder.bare

theorem Follows.enclosing?_eq (h : x.Follows s) : x.enclosing? = s.enclosing? := by
  rw [enclosing?, SyntaxTree.enclosingFunction?_name, ← Builder.enclosingName_bare, h,
    Builder.enclosingName_bare, Spine.map_kind_lineage, Spine.enclosing?]

theorem Follows.top_eq (h : x.Follows s) : x.builder.top = s.builder.top := by
  have hb : x.builder.bare.top = s.builder.bare.top := congrArg Builder.top h
  exact hb

theorem Follows.scopes_eq (h : x.Follows s) : x.builder.scopes = s.builder.scopes := by
  have hb : x.builder.bare.scopes = s.builder.bare.scopes := congrArg Builder.scopes h
  exact hb

theorem Follows.kind_alike (h : x.Follows s) (i : Nat) :
    (x.builder.tree.kind i).bare = (s.builder.tree.kind i).bare :=
  SyntaxTree.kind_alike (congrArg Builder.tree h) i

theorem Follows.graft (h : x.Follows s) (F : Forest) : (x.graft F).Follows (s.add F) := by
  rw [Follows, Draft.graft, Spine.builder_add, Builder.bare_graft, Builder.bare_graft, h,
    h.top_eq]

theorem Follows.enter (h : x.Follows s) (k : NodeKind) (l : String) :
    (x.enter k l).Follows (.scope s k (some l) .nil) := by
  change (x.builder.enter k (some l)).bare = (s.builder.enter k (some l)).bare
  rw [Builder.bare_enter, Builder.bare_enter, h]

theorem Follows.close (h : x.Follows s) (hy : y.builder = x.builder.leave.2) :
    y.Follows s.close := by
  have hb := congrArg (fun b : Builder => b.leave.2) h
  simp only [Builder.bare_leave] at hb
  rw [Follows, hy, hb, Spine.leave_builder]

/-- One construct is one move. -/
theorem Follows.exists_move (hx : x.Follows s) (h : x.add c = .ok y) :
    ∃ s', s.Move c s' ∧ y.Follows s' := by
  rcases add_cases h with ⟨F, hF, rfl⟩ | ⟨kind, label, hc, rfl⟩ | ⟨rfl, hy, -⟩ |
    ⟨label, condition, id, rfl, -, hy, -⟩
  · rw [hx.enclosing?_eq] at hF
    exact ⟨_, .add hF, hx.graft F⟩
  · exact ⟨_, .enter hc, hx.enter kind label⟩
  · exact ⟨_, .close rfl, (hx.graft (.leaf .expression "\x7d")).close hy⟩
  · exact ⟨s, .trailer rfl, hy.trans hx⟩

theorem Follows.exists_run {P : Spine → Prop} {constructs : List Construct}
    (hstep : ∀ s c s', c ∈ constructs → P s → s.Move c s' → P s')
    (hx : x.Follows s) (hs : P s) (h : constructs.foldlM Draft.add x = .ok y) :
    ∃ s', P s' ∧ y.Follows s' := by
  induction constructs generalizing x s with
  | nil =>
    cases h
    exact ⟨s, hs, hx⟩
  | cons c cs ih =>
    rw [List.foldlM_cons] at h
    cases hc : x.add c with
    | error e =>
      rw [hc] at h
      cases h
    | ok z =>
      rw [hc] at h
      obtain ⟨s', hm, hz⟩ := hx.exists_move hc
      refine ih (fun s c s' hc => hstep s c s' (List.mem_cons_of_mem _ hc)) hz ?_ h
      exact hstep s c s' List.mem_cons_self hs hm

end Draft

/-! ## The constructs of a stream of tokens -/

/-- The kinds of nodes that a single token stands for. -/
def NodeKind.isAtom : NodeKind → Bool
  | typeDeclaration d => !d.isArray && !d.isTwoDimensional
  | returnStatement | newInstance | specialReference | typedef | sizeof | expression | unknown =>
    true
  | _ => false

/-- The kinds of scopes that a keyword or a name opens without a header. -/
def NodeKind.isOpener : NodeKind → Bool
  | conditional | functionDeclaration _ | loop .doWhile _ => true
  | _ => false

/-- The headers that are read in a style. -/
def ForHeader.Suits (style : HeaderStyle) : ForHeader → Prop
  | positional _ _ _ => style = .positional
  | clauses _ | absent => style = .structured
  | cut => True

theorem ForHeader.suits_read (style : HeaderStyle) (ts : List Token) :
    (read style ts).1.Suits style := by
  unfold read
  split
  · rfl
  · trivial
  · trivial
  · split
    · split
      · rfl
      · trivial
    · rfl

theorem Subscript.dimensions_ne_nil {ts : List Token} (h : nextIs ts "[") :
    (dimensions ts).1 ≠ [] := by
  cases ts with
  | nil => cases h
  | cons t rest =>
    have ht : t.is "[" = true := h
    rw [dimensions, if_pos ht]
    exact List.cons_ne_nil _ _

namespace Construct

/-- What the reader makes of a stream of tokens: its leaves and scopes are of a few kinds, its
headers suit the grammar, and declared arrays have dimensions. -/
def Regular (g : Grammar) : Construct → Prop
  | leaf kind _ => kind.isAtom
  | scope kind _ => kind.isOpener
  | forLoop _ header => header.Suits g.headerStyle
  | typedArray _ _ dimensions => dimensions ≠ []
  | _ => True

variable {d : Dialect} {g : Grammar} {previous : Option Token} {t : Token} {rest : List Token}

theorem regular_function (typeName name : String) (rest : List Token) :
    (function typeName name rest).Regular g := by
  unfold function
  split <;> rfl

theorem regular_declarator (typeName : String) (ts : List Token) :
    (declarator typeName ts).1.Regular g := by
  unfold declarator
  split
  · rfl
  · next t rest =>
    split
    · exact regular_function ..
    · split
      · next h => exact Subscript.dimensions_ne_nil (Bool.and_eq_true_iff.1 h).2
      · split
        · next h =>
          have hne : (Subscript.dimensions (t :: rest)).1 ≠ [] := Subscript.dimensions_ne_nil h
          dsimp only
          split
          · split
            · split
              · exact regular_function ..
              · exact hne
            · exact hne
          · exact hne
        · split <;> rfl

theorem regular_callSite (name : String) :
    (callSite d previous name rest).1.Regular d.grammar := by
  unfold callSite
  split
  · rfl
  · split
    · rfl
    · split
      · rfl
      · trivial

theorem regular_plain : (plain d previous t rest).1.Regular d.grammar := by
  unfold plain
  split
  · trivial
  · split
    · exact regular_callSite ..
    · split
      · trivial
      · rfl

theorem regular_keyword (text : String) (action : KeywordAction) :
    (keyword g previous text rest action).1.Regular g := by
  cases action with
  | forLoop => exact ForHeader.suits_read g.headerStyle rest
  | whileLoop => trivial
  | typeDeclaration => exact regular_declarator ..
  | newInstance =>
    unfold keyword
    dsimp only
    split
    · split <;> rfl
    · rfl
  | _ => rfl

theorem regular_read : (read d previous t rest).1.Regular d.grammar := by
  unfold read
  split
  · split
    · exact regular_keyword ..
    · exact regular_plain
  · rfl
  · exact regular_plain

theorem regular_of_mem_list {c : Construct} {ts : List Token} (h : c ∈ list d previous ts) :
    c.Regular d.grammar := by
  fun_induction list d previous ts with
  | case1 => cases h
  | case2 previous t rest construct n hr ih =>
    rcases List.mem_cons.1 h with rfl | h
    · have hc : (read d previous t rest).1 = c := congrArg Prod.fst hr
      exact hc ▸ regular_read
    · exact ih h

end Construct

namespace SyntaxTree

variable {d : Dialect} {tokens : List Token} {t : SyntaxTree}

theorem exists_of_bind_ofTokens {α : Type} {f : SyntaxTree → Except AnalysisError α} {a : α}
    (h : (ofTokens d tokens).bind f = .ok a) : ∃ t, ofTokens d tokens = .ok t ∧ f t = .ok a := by
  cases ht : ofTokens d tokens with
  | error e =>
    rw [ht] at h
    cases h
  | ok t =>
    rw [ht] at h
    exact ⟨t, rfl, h⟩

/-- What holds of the empty spine and is kept by the moves of constructs that can be read holds of
a spine whose tree is the tree that is read, but for the conditions of do-loops. -/
theorem exists_spine {P : Spine → Prop} (h : ofTokens d tokens = .ok t) (hroot : P (.root .nil))
    (hstep : ∀ s c s', c.Regular d.grammar → P s → s.Move c s' → P s') :
    ∃ s : Spine, P s ∧ t.bare = s.builder.finish.bare := by
  rw [ofTokens, ofConstructs] at h
  cases hx : (Construct.list d none tokens).foldlM Draft.add Draft.start with
  | error e =>
    rw [hx] at h
    cases h
  | ok x =>
    rw [hx] at h
    cases h
    have hregular : ∀ s c s', c ∈ Construct.list d none tokens → P s → Spine.Move s c s' → P s' :=
      fun s c s' hc => hstep s c s' (Construct.regular_of_mem_list hc)
    have hstart : Draft.start.Follows (.root .nil) := rfl
    obtain ⟨s, hs, hf⟩ := hstart.exists_run hregular hroot hx
    exact ⟨s, hs, congrArg Builder.finish hf⟩

end SyntaxTree

end GrowthOrder
