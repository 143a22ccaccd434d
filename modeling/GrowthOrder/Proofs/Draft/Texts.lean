import GrowthOrder.Proofs.Draft.Form
import GrowthOrder.Token.Scan
import Mathlib

/-!
# Texts that are kept twice

A call has its arguments below it and once more in its label, and a loop with a structured header
has its clauses below it and once more in the slots of its header. The estimates read either, so
the two have to agree in every tree that is read. A call is compared with its own children. A slot
is compared with the children of a clause, and this is said at the clause, which sees the header
right above it.
-/
namespace GrowthOrder

/-- The slot of a header that belongs to a kind of clauses. -/
def LoopHeader.slot (header : LoopHeader) : NodeKind → Option String
  | .initialization => header.initialization
  | .condition => header.condition
  | .update => header.update
  | _ => none

namespace NodeKind

def forHeader? : NodeKind → Option LoopHeader
  | loop .forLoop header => some header
  | _ => none

/-- The labels in a row of nodes, with blanks between them. -/
def joined (row : List (NodeKind × Option String)) : String :=
  " ".intercalate (row.map fun n => n.2.getD "")

/-- What the texts of a node have to be, from the header right above it and what is right below it.
-/
def Agrees (g : Grammar) (around : Option LoopHeader) (label : Option String)
    (row : List (NodeKind × Option String)) : NodeKind → Prop
  | functionCall name | recursiveCall name => label = some (name ++ "(" ++ joined row ++ ")")
  | initialization => around.bind (·.slot initialization) = some (joined row)
  | condition => around.bind (·.slot condition) = some (joined row)
  | update => around.bind (·.slot update) = some (joined row)
  | loop .forLoop header =>
    (g = .javaLike → ∀ i k, [initialization, condition, update][i]? = some k →
      row.length ≤ i → header.slot k = none) ∧
    (g = .cLike → header.initialization.isSome ∧ header.condition.isSome ∧ header.update.isSome)
  | _ => True

/-- A node has a label, and its texts agree with what is around it. -/
structure Worded (g : Grammar) (above : List NodeKind) (kind : NodeKind) (label : Option String)
    (below : Forest) : Prop where
  labelled : label.isSome
  agrees : kind.Agrees g (above.head?.bind forHeader?) label below.row

/-- The kinds whose texts are kept only once. -/
def isSimple (k : NodeKind) : Bool :=
  !k.isCall && !k.isClause && !k.isForLoop

variable {g : Grammar} {above : List NodeKind} {k : NodeKind} {l : String} {below : Forest}
  {around : Option LoopHeader} {row : List (NodeKind × Option String)}

theorem agrees_clause (hk : k.isClause) :
    k.Agrees g around (some l) row ↔ around.bind (·.slot k) = some (joined row) := by
  cases k with
  | initialization | condition | update => exact Iff.rfl
  | _ => cases hk

theorem worded_simple (hk : k.isSimple) : Worded g above k (some l) below := by
  refine ⟨rfl, ?_⟩
  cases k with
  | loop form header =>
    cases form with
    | forLoop => cases hk
    | whileLoop => trivial
    | doWhile => trivial
  | functionCall | recursiveCall | initialization | condition | update => cases hk
  | _ => trivial

theorem isSimple_of_isAtom (h : k.isAtom) : k.isSimple := by
  cases k with
  | typeDeclaration | returnStatement | newInstance | specialReference | typedef | sizeof
  | expression | unknown => rfl
  | _ => cases h

theorem isSimple_of_isOpener (h : k.isOpener) : k.isSimple := by
  unfold isOpener at h
  split at h
  · rfl
  · rfl
  · rfl
  · cases h

end NodeKind

namespace Forest

open NodeKind (Worded worded_simple joined)

variable {g : Grammar} {above : List NodeKind}

theorem joined_expressions (texts : List String) :
    joined (expressions texts).row = " ".intercalate texts := by
  rw [joined, row_expressions, List.map_map]
  exact congrArg _ (List.map_id texts)

theorem worded_expressions (texts : List String) : (expressions texts).Each (Worded g) above := by
  induction texts with
  | nil => trivial
  | cons text texts ih => exact ⟨worded_simple rfl, trivial, ih⟩

/-- The clauses agree with a header whose slots hold their texts. -/
theorem worded_clauses {header : LoopHeader} {kinds : List (NodeKind × String)}
    {texts : List (List String)} (hk : ∀ k ∈ kinds, k.1.isClause)
    (hslots : ∀ (i : Nat) (k : NodeKind × String), kinds[i]? = some k →
      header.slot k.1 = texts[i]?.map (" ".intercalate ·)) :
    (clauses kinds texts).Each (Worded g) (.loop .forLoop header :: above) := by
  induction kinds generalizing texts with
  | nil => trivial
  | cons k kinds ih =>
    cases texts with
    | nil => trivial
    | cons clause texts =>
      have hslot : header.slot k.1 = some (" ".intercalate clause) := hslots 0 k rfl
      refine ⟨⟨rfl, (NodeKind.agrees_clause (hk k List.mem_cons_self)).2 ?_⟩,
        worded_expressions clause,
        ih (fun k hmem => hk k (List.mem_cons_of_mem _ hmem)) fun i => hslots (i + 1)⟩
      rw [joined_expressions]
      exact hslot

theorem worded_literals (sizes : List UInt64) : (array.literals sizes).Each (Worded g) above := by
  induction sizes with
  | nil => trivial
  | cons size sizes ih => exact ⟨worded_simple rfl, trivial, ih⟩

theorem worded_array (label : String) (dimensions : List Dimension) :
    (array label dimensions).Each (Worded g) above := by
  by_cases h : dimensions = []
  · subst h
    trivial
  · rw [array_of_ne_nil label h]
    exact ⟨worded_simple rfl, worded_literals _, trivial⟩

/-- The nodes of arguments have the texts of the arguments for labels. -/
theorem labels_arguments (enclosing : Option String) (arguments : Arguments) :
    (arguments.forest enclosing).row.map (fun n => n.2.getD "") = arguments.parts := by
  induction arguments with
  | done closed => rfl
  | word text rest ih => exact congrArg (text :: ·) ih
  | call name inner rest _ ih => exact congrArg (Arguments.callText name inner.parts :: ·) ih

theorem worded_arguments (enclosing : Option String) (arguments : Arguments) :
    (arguments.forest enclosing).Each (Worded g) above := by
  induction arguments generalizing above with
  | done closed => trivial
  | word text rest ih => exact ⟨worded_simple rfl, trivial, ih⟩
  | call name inner rest ihi ihr =>
    refine ⟨⟨rfl, ?_⟩, ihi, ihr⟩
    have htext : some (Arguments.callText name inner.parts) =
        some (name ++ "(" ++ joined (inner.forest enclosing).row ++ ")") := by
      rw [joined, labels_arguments]
      rfl
    unfold Arguments.callKind
    split
    · exact htext
    · exact htext

end Forest

namespace NodeKind

variable {g : Grammar} {above : List NodeKind} {c : Construct} {F : Forest}

theorem slot_slots (texts : List (List String)) (i : Nat) (k : NodeKind × String)
    (hk : ForHeader.clauseKinds[i]? = some k) :
    (ForHeader.slots texts).slot k.1 = texts[i]?.map (" ".intercalate ·) := by
  rcases i with _ | _ | _ | i
  · cases hk; rfl
  · cases hk; rfl
  · cases hk; rfl
  · cases hk

/-- The slots behind the last clause are empty. -/
theorem slot_slots_of_le (texts : List (List String)) {i : Nat} {k : NodeKind}
    (hk : [initialization, condition, update][i]? = some k)
    (hi : (Forest.clauses ForHeader.clauseKinds texts).row.length ≤ i) :
    (ForHeader.slots texts).slot k = none := by
  rcases i with _ | _ | _ | i
  · cases hk
    rcases texts with _ | ⟨a, texts⟩
    · rfl
    · cases hi
  · cases hk
    rcases texts with _ | ⟨a, _ | ⟨b, texts⟩⟩
    · rfl
    · rfl
    · exact absurd hi (by simp [Forest.clauses, ForHeader.clauseKinds, Forest.row])
  · cases hk
    rcases texts with _ | ⟨a, _ | ⟨b, _ | ⟨c, texts⟩⟩⟩
    · rfl
    · rfl
    · rfl
    · exact absurd hi (by simp [Forest.clauses, ForHeader.clauseKinds, Forest.row])
  · cases hk

theorem worded_nodes? (hc : c.Regular g) (h : c.nodes? (enclosingName above) = some F) :
    F.Each (Worded g) above := by
  cases c with
  | leaf kind label =>
    cases h
    exact ⟨worded_simple (isSimple_of_isAtom hc), trivial, trivial⟩
  | forLoop label header =>
    cases header with
    | clauses texts =>
      cases h
      refine ⟨⟨rfl, fun _ i k hk hi => slot_slots_of_le texts hk hi, fun hg => ?_⟩,
        Forest.worded_clauses (by decide) (slot_slots texts), trivial⟩
      subst hg
      cases hc
    | absent =>
      cases h
      refine ⟨⟨rfl, fun _ i k hk _ => ?_, fun hg => ?_⟩, trivial, trivial⟩
      · exact slot_slots_of_le [] hk (Nat.zero_le i)
      · subst hg
        cases hc
    | positional => cases h
    | cut => cases h
  | typedArray typeName name dimensions =>
    cases h
    exact ⟨worded_simple rfl, Forest.worded_array .., trivial⟩
  | bareArray name dimensions =>
    cases h
    exact Forest.worded_array ..
  | call name arguments =>
    cases h
    exact Forest.worded_arguments (enclosingName above) (.call name arguments (.done true))
  | scope => cases h
  | close => cases h
  | whileLoop => cases h

theorem worded_scope? {kind : NodeKind} {label : String} (hc : c.Regular g)
    (h : c.scope? = some (kind, label)) (below : Forest) :
    Worded g above kind (some label) below := by
  cases c with
  | scope opener text =>
    cases h
    exact worded_simple (isSimple_of_isOpener hc)
  | forLoop text header =>
    cases header with
    | positional i c u =>
      cases h
      refine ⟨rfl, fun hg => ?_, fun _ => ⟨rfl, rfl, rfl⟩⟩
      subst hg
      cases hc
    | clauses => cases h
    | absent => cases h
    | cut => cases h
  | whileLoop text afterBrace condition =>
    cases condition with
    | unread =>
      cases h
      exact worded_simple rfl
    | token text =>
      cases h
      exact worded_simple rfl
    | cut => cases h
  | leaf => cases h
  | close => cases h
  | typedArray => cases h
  | bareArray => cases h
  | call => cases h

theorem worded_bare (above : List NodeKind) (kind : NodeKind) (label : Option String)
    (below : Forest) : Worded g (above.map bare) kind.bare label below ↔
      Worded g above kind label below := by
  have hhead : (above.map bare).head?.bind forHeader? = above.head?.bind forHeader? := by
    cases above with
    | nil => rfl
    | cons p rest => exact apply_bare forHeader? (fun _ => rfl) p
  have hagrees := apply_bare (Agrees g (above.head?.bind forHeader?) label below.row)
    (fun _ => rfl) kind
  constructor
  · intro h
    have ha := h.agrees
    rw [hhead, hagrees] at ha
    exact ⟨h.labelled, ha⟩
  · intro h
    refine ⟨h.labelled, ?_⟩
    rw [hhead, hagrees]
    exact h.agrees

theorem nodeLaw_worded (g : Grammar) : NodeLaw g (Worded g) where
  bare := worded_bare
  nodes _ _ _ _ := worded_nodes?
  scope _ _ _ _ _ := worded_scope?

end NodeKind

namespace SyntaxTree

/-- The texts of the children of a node, with blanks between them. -/
def childTexts (t : SyntaxTree) (id : Nat) : String :=
  " ".intercalate ((t.children id).map t.text)

/-- The texts that a tree keeps twice agree. -/
structure Consistent (g : Grammar) (t : SyntaxTree) : Prop where
  label : ∀ u, 0 < u → u < t.size → (t.label u).isSome
  call : ∀ u name, t.kind u = .functionCall name ∨ t.kind u = .recursiveCall name →
    t.label u = some (name ++ "(" ++ t.childTexts u ++ ")")
  /-- A structured header has a slot for each clause below the loop, and no other. -/
  structured : ∀ u header, g = .javaLike → t.kind u = .loop .forLoop header →
    (t.children u).map t.kind <+: [.initialization, .condition, .update] ∧
    header.initialization = (t.children u)[0]?.map t.childTexts ∧
    header.condition = (t.children u)[1]?.map t.childTexts ∧
    header.update = (t.children u)[2]?.map t.childTexts
  positional : ∀ u header, g = .cLike → t.kind u = .loop .forLoop header →
    header.initialization.isSome ∧ header.condition.isSome ∧ header.update.isSome

variable {d : Dialect} {tokens : List Token} {t : SyntaxTree} {u : Nat}

theorem joined_row (t : SyntaxTree) (u : Nat) : NodeKind.joined (t.row u) = t.childTexts u := by
  rw [NodeKind.joined, row, List.map_map]
  rfl

theorem agrees_ofTokens (h : ofTokens d tokens = .ok t) (u : Nat) :
    (t.kind u).Agrees d.grammar (((t.lineage u).map t.kind).head?.bind NodeKind.forHeader?)
      (t.label u) (t.row u) := by
  rcases Nat.eq_zero_or_pos u with rfl | hpos
  · rw [(arranged_ofTokens h).kind_root]
    trivial
  · rcases Nat.lt_or_ge u t.size with hlt | hge
    · obtain ⟨below, hworded, hrow⟩ := (NodeKind.nodeLaw_worded d.grammar).holds h hpos hlt
      rw [hrow]
      exact hworded.agrees
    · rw [kind_of_size_le hge]
      trivial

theorem label_of_call {name : String} (h : ofTokens d tokens = .ok t)
    (hu : t.kind u = .functionCall name ∨ t.kind u = .recursiveCall name) :
    t.label u = some (name ++ "(" ++ t.childTexts u ++ ")") := by
  have hagrees := agrees_ofTokens h u
  rw [← joined_row]
  rcases hu with hu | hu
  · rw [hu] at hagrees
    exact hagrees
  · rw [hu] at hagrees
    exact hagrees

/-- A clause finds the texts below it in the header right above it. -/
theorem slot_of_clause {header : LoopHeader} {c : Nat} (h : ofTokens d tokens = .ok t)
    (hu : t.kind u = .loop .forLoop header) (hc : c ∈ t.children u) (hk : (t.kind c).isClause) :
    header.slot (t.kind c) = some (t.childTexts c) := by
  have hparent := ((arranged_ofTokens h).linked.mem_children_iff u c).1 hc
  have hlabel : ∃ l, t.label c = some l := by
    obtain ⟨hlow, hlt⟩ := mem_children_range hc
    obtain ⟨below, hworded, -⟩ :=
      (NodeKind.nodeLaw_worded d.grammar).holds h (Nat.zero_lt_of_lt hlow) hlt
    exact Option.isSome_iff_exists.1 hworded.labelled
  obtain ⟨l, hl⟩ := hlabel
  have hagrees := agrees_ofTokens h c
  rw [hl, NodeKind.agrees_clause hk, joined_row, lineage_of_parent hparent, List.map_cons, hu]
    at hagrees
  exact hagrees

/-- A slot of a structured header holds the texts below its clause, if the loop has the clause. -/
theorem slot_eq {header : LoopHeader} {i : Nat} {k : NodeKind} (h : ofTokens d tokens = .ok t)
    (hg : d.grammar = .javaLike) (hu : t.kind u = .loop .forLoop header)
    (hk : [NodeKind.initialization, .condition, .update][i]? = some k) :
    header.slot k = (t.children u)[i]?.map t.childTexts := by
  cases hc : (t.children u)[i]? with
  | none =>
    have hlength : (t.row u).length ≤ i := by
      rw [row, List.length_map]
      exact List.getElem?_eq_none_iff.1 hc
    have hloop := agrees_ofTokens h u
    rw [hu] at hloop
    exact hloop.1 hg i k hk hlength
  | some c =>
    have hkind : t.kind c = k := by
      obtain ⟨more, hmore⟩ := children_of_admits_forLoop hg (hu ▸ admits_ofTokens h u)
      have hat : ((t.children u).map t.kind)[i]? = some (t.kind c) := by
        rw [List.getElem?_map, hc, Option.map_some]
      rw [← hmore, List.getElem?_append_left (List.getElem?_eq_some_iff.1 hat).1, hat] at hk
      exact Option.some.inj hk
    have hclause : k.isClause := by
      have hall : ∀ k ∈ [NodeKind.initialization, .condition, .update], k.isClause := by decide
      exact hall k (List.mem_of_getElem? hk)
    rw [← hkind] at hclause ⊢
    exact slot_of_clause h hu (List.mem_of_getElem? hc) hclause

/-- The texts of every tree that is read agree. -/
theorem consistent_ofTokens (h : ofTokens d tokens = .ok t) : t.Consistent d.grammar where
  label u hpos hlt := by
    obtain ⟨below, hworded, -⟩ := (NodeKind.nodeLaw_worded d.grammar).holds h hpos hlt
    exact hworded.labelled
  call u name hu := label_of_call h hu
  structured u header hg hu :=
    ⟨children_of_admits_forLoop hg (hu ▸ admits_ofTokens h u), slot_eq h hg hu (i := 0) rfl,
      slot_eq h hg hu (i := 1) rfl, slot_eq h hg hu (i := 2) rfl⟩
  positional u header hg hu := by
    have hloop := agrees_ofTokens h u
    rw [hu] at hloop
    exact hloop.2 hg

/-- A structured header with two clauses before a call in a call, and a positional header. -/
theorem consistent_ofTokens_headers :
    (∃ t, ofTokens { grammar := .javaLike } (Grammar.tokenize .javaLike
        "for (i = 0; i < n) f(g(n));") = .ok t ∧
      t.kind 1 = .loop .forLoop ⟨some "i = 0", some "i < n", none⟩ ∧
      some "i = 0" = (t.children 1)[0]?.map t.childTexts ∧
      some "i < n" = (t.children 1)[1]?.map t.childTexts ∧
      none = (t.children 1)[2]?.map t.childTexts ∧
      t.kind 10 = .functionCall "f" ∧ t.label 10 = some ("f" ++ "(" ++ t.childTexts 10 ++ ")")) ∧
    ∃ t header, ofTokens { grammar := .cLike } (Grammar.tokenize .cLike "for a b c") = .ok t ∧
      t.kind 1 = .loop .forLoop header ∧
      header.initialization.isSome ∧ header.condition.isSome ∧ header.update.isSome := by
  have hjava : (ofTokens { grammar := .javaLike } (Grammar.tokenize .javaLike
      "for (i = 0; i < n) f(g(n));")).bind (fun t => .ok (t.kind 1, t.kind 10)) =
    .ok (.loop .forLoop ⟨some "i = 0", some "i < n", none⟩, .functionCall "f") := by cbv
  have hc : (ofTokens { grammar := .cLike } (Grammar.tokenize .cLike "for a b c")).bind
      (fun t => .ok (t.kind 1)) = .ok (.loop .forLoop ⟨some "a", some "b", some "c"⟩) := by cbv
  constructor
  · obtain ⟨t, ht, hkinds⟩ := exists_of_bind_ofTokens hjava
    obtain ⟨hloop, hcall⟩ := Prod.mk.inj (Except.ok.inj hkinds)
    have hconsistent := consistent_ofTokens ht
    obtain ⟨-, hfirst, hsecond, hthird⟩ := hconsistent.structured 1 _ rfl hloop
    exact ⟨t, ht, hloop, hfirst, hsecond, hthird, hcall, hconsistent.call 10 "f" (.inl hcall)⟩
  · obtain ⟨t, ht, hkind⟩ := exists_of_bind_ofTokens hc
    have hloop := Except.ok.inj hkind
    exact ⟨t, _, ht, hloop, (consistent_ofTokens ht).positional 1 _ rfl hloop⟩

end SyntaxTree

end GrowthOrder
