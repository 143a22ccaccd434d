import GrowthOrder.Proofs.Construct.CallSites
import GrowthOrder.Proofs.Draft.Placement
import GrowthOrder.Proofs.Time.Decrement
import GrowthOrder.Report
import Mathlib

/-!
# Decreased arguments in the tokens of a call

The calls of a tree that is read are, in the order of their numbers, the calls of the constructs and
so the sites of the stream of tokens. The text of a call has a parenthesis behind every call in its
arguments, also where the tokens have none. It neither makes nor hides the three tokens `n - 1`: in
the tokens there is then a semicolon or a brace at this place, or nothing.
-/
namespace GrowthOrder

/-! ## The calls of a tree -/

/-- The function that a call names, and its label, for each call before those below it. -/
def Forest.calls : Forest → List (Option String × Option String)
  | nil => []
  | cons kind label children siblings =>
    (if kind.isCall then [(kind.functionName?, label)] else []) ++
      (children.calls ++ siblings.calls)

/-- The name and the label that the node of a call has. -/
def Arguments.said (c : String × Arguments) : Option String × Option String :=
  (some c.1, some (callText c.1 c.2.parts))

namespace Forest

theorem calls_append (F G : Forest) : (F ++ G).calls = F.calls ++ G.calls := by
  induction F with
  | nil => rfl
  | cons k l ch sib _ ih => simp only [cons_append, calls, ih, List.append_assoc]

theorem calls_leaf {kind : NodeKind} (h : kind.isCall = false) (label : String) :
    (leaf kind label).calls = [] := by
  rw [leaf, calls, h]
  rfl

theorem calls_expressions (texts : List String) : (expressions texts).calls = [] := by
  induction texts with
  | nil => rfl
  | cons text texts ih => exact ih

theorem calls_clauses {kinds : List (NodeKind × String)} (h : ∀ k ∈ kinds, k.1.isCall = false)
    (texts : List (List String)) : (clauses kinds texts).calls = [] := by
  induction kinds generalizing texts with
  | nil => rfl
  | cons k kinds ih =>
    cases texts with
    | nil => rfl
    | cons clause texts =>
      obtain ⟨hk, hkinds⟩ := List.forall_mem_cons.1 h
      rw [clauses, calls, hk, calls_expressions, ih hkinds]
      rfl

theorem calls_array (label : String) (dimensions : List Dimension) :
    (array label dimensions).calls = [] := by
  have hliterals : ∀ sizes : List UInt64, (array.literals sizes).calls = [] := by
    intro sizes
    induction sizes with
    | nil => rfl
    | cons size sizes ih => exact ih
  unfold array
  split
  · rfl
  · rw [calls, hliterals]
    rfl

theorem calls_call (enclosing : Option String) (name : String) (label : Option String)
    (children siblings : Forest) :
    (cons (Arguments.callKind enclosing name) label children siblings).calls =
      (some name, label) :: (children.calls ++ siblings.calls) := by
  have hname : (Arguments.callKind enclosing name).functionName? = some name := by
    unfold Arguments.callKind
    split <;> rfl
  rw [calls, NodeKind.isCall_callKind, hname]
  rfl

theorem calls_arguments (enclosing : Option String) (a : Arguments) :
    (a.forest enclosing).calls = a.calls.map Arguments.said := by
  induction a with
  | done closed => rfl
  | word text rest ih => exact ih
  | call name inner rest ihi ihr =>
    rw [Arguments.forest, calls_call, ihi, ihr, Arguments.calls, List.map_cons, List.map_append]
    rfl

end Forest

namespace Spine

variable {s s' : Spine} {c : Construct} {g : Grammar}

/-- The place at hand is behind everything that is there. -/
theorem calls_around (s : Spine) (F : Forest) :
    (s.around F).calls = s.forest.calls ++ F.calls := by
  induction s generalizing F with
  | root before => rw [around, forest, around, Forest.append_nil, Forest.calls_append]
  | scope outer kind label before ih =>
    rw [forest, around, around, ih, ih, Forest.append_nil, Forest.calls, Forest.calls,
      Forest.calls_append]
    simp [Forest.calls]

theorem forest_add (s : Spine) (F : Forest) : (s.add F).forest = s.around F := by
  cases s with
  | root before => rw [add, forest, around, around, Forest.append_nil]
  | scope outer kind label before => rw [add, forest, around, around, Forest.append_nil]

theorem forest_close (s : Spine) : s.close.forest = s.forest := by
  cases s with
  | root before => rfl
  | scope outer kind label before =>
    rw [close, forest_add, forest, around, Forest.append_nil]

theorem calls_nodes? {enclosing : Option String} {F : Forest} (hc : c.Regular g)
    (h : c.nodes? enclosing = some F) : F.calls = c.calls.map Arguments.said := by
  cases c with
  | leaf kind label =>
    cases h
    exact Forest.calls_leaf (NodeKind.of_isAtom hc).2 label
  | forLoop label header =>
    cases header with
    | clauses texts =>
      cases h
      have hkinds : ∀ k ∈ ForHeader.clauseKinds, k.1.isCall = false := by decide
      rw [Forest.calls, Forest.calls_clauses hkinds]
      rfl
    | absent =>
      cases h
      rfl
    | positional => cases h
    | cut => cases h
  | typedArray typeName name dimensions =>
    cases h
    rw [Forest.calls, Forest.calls_array]
    rfl
  | bareArray name dimensions =>
    cases h
    exact Forest.calls_array ..
  | call name arguments =>
    cases h
    rw [Forest.calls_call, Forest.calls_arguments, Forest.calls, List.append_nil]
    rfl
  | scope => cases h
  | close => cases h
  | whileLoop => cases h

theorem calls_of_scope? {kind : NodeKind} {label : String} (h : c.scope? = some (kind, label)) :
    c.calls = [] := by
  cases c with
  | call => cases h
  | _ => rfl

/-- A move puts the calls of its construct behind those that are there. -/
theorem calls_move (hc : c.Regular g) (hm : s.Move c s') :
    s'.forest.calls = s.forest.calls ++ c.calls.map Arguments.said := by
  cases hm with
  | add hF => rw [forest_add, calls_around, calls_nodes? hc hF]
  | @enter kind label hscope =>
    have hkind := (NodeKind.of_isScope (Construct.isScope_of_scope? hc hscope)).1
    have hopened : (scope s kind (some label) .nil).forest = s.around (.leaf kind label) := rfl
    rw [hopened, calls_around, Forest.calls_leaf hkind, calls_of_scope? hscope]
    rfl
  | close hclose =>
    subst hclose
    rw [forest_close, forest_add, calls_around]
    rfl
  | trailer htrailer =>
    subst htrailer
    exact (List.append_nil _).symm

end Spine

/-- A run of constructs puts their calls one behind the other. -/
theorem Draft.Follows.exists_calls {g : Grammar} {constructs : List Construct} {x y : Draft}
    {s : Spine} (hregular : ∀ c ∈ constructs, c.Regular g) (hx : x.Follows s)
    (h : constructs.foldlM Draft.add x = .ok y) :
    ∃ s', y.Follows s' ∧ s'.forest.calls =
      s.forest.calls ++ (constructs.flatMap Construct.calls).map Arguments.said := by
  induction constructs generalizing x s with
  | nil =>
    cases h
    exact ⟨s, hx, (List.append_nil _).symm⟩
  | cons c cs ih =>
    obtain ⟨hc, hcs⟩ := List.forall_mem_cons.1 hregular
    rw [List.foldlM_cons] at h
    cases hadd : x.add c with
    | error e =>
      rw [hadd] at h
      cases h
    | ok z =>
      rw [hadd] at h
      obtain ⟨s₁, hmove, hz⟩ := hx.exists_move hadd
      obtain ⟨s', hy, hcalls⟩ := ih hcs hz h
      refine ⟨s', hy, ?_⟩
      rw [hcalls, Spine.calls_move hc hmove, List.flatMap_cons, List.map_append, List.append_assoc]

namespace SyntaxTree

/-- The calls of a tree, in the order of their numbers. -/
def calls (t : SyntaxTree) : List Nat :=
  (List.range t.size).filter fun u => (t.kind u).isCall

variable {t t' : SyntaxTree} {p n : Nat} {F : Forest} {d : Dialect} {tokens : List Token}

theorem filter_range'_shows (h : t.Shows p n F) :
    ((List.range' n F.size).filter fun u => (t.kind u).isCall).map
      (fun u => ((t.kind u).functionName?, t.label u)) = F.calls := by
  induction F generalizing p n with
  | nil => rfl
  | cons k l ch sib ihc ihs =>
    obtain ⟨hn, hc, hs⟩ := h
    have hk : t.kind n = k := kind_of_node hn
    have hl : t.label n = l := label_of_node hn
    rw [Forest.size, Nat.add_assoc, Nat.add_comm 1, List.range'_succ, ← List.range'_append_1,
      List.filter_cons, List.filter_append, Forest.calls, ← ihc hc, ← ihs hs, hk]
    cases k.isCall with
    | true => simp [hk, hl]
    | false => simp

theorem Grown.map_calls (h : t.Grown F) :
    t.calls.map (fun u => ((t.kind u).functionName?, t.label u)) = F.calls := by
  rw [calls, h.size_eq, List.range_eq_range', List.range'_succ, List.filter_cons, h.kind_root]
  exact filter_range'_shows h.shows

theorem map_calls_alike (h : t.bare = t'.bare) :
    t.calls.map (fun u => ((t.kind u).functionName?, t.label u)) =
      t'.calls.map fun u => ((t'.kind u).functionName?, t'.label u) := by
  have hcall : ∀ u, (t.kind u).isCall = (t'.kind u).isCall := by
    intro u
    rw [← NodeKind.isCall_bare, kind_alike h, NodeKind.isCall_bare]
  have hname : ∀ u, (t.kind u).functionName? = (t'.kind u).functionName? := by
    intro u
    rw [← NodeKind.functionName?_bare, kind_alike h, NodeKind.functionName?_bare]
  simp only [calls, hcall, hname, size_alike h, label_alike h]

/-- The calls of a tree that is read are those of the constructs. -/
theorem map_calls_ofTokens (h : ofTokens d tokens = .ok t) :
    t.calls.map (fun u => ((t.kind u).functionName?, t.label u)) =
      ((Construct.list d none tokens).flatMap Construct.calls).map Arguments.said := by
  rw [ofTokens, ofConstructs] at h
  cases hx : (Construct.list d none tokens).foldlM Draft.add Draft.start with
  | error e =>
    rw [hx] at h
    cases h
  | ok x =>
    rw [hx] at h
    cases h
    have hstart : Draft.start.Follows (.root .nil) := rfl
    obtain ⟨s, hs, hcalls⟩ :=
      hstart.exists_calls (fun c hc => Construct.regular_of_mem_list hc) hx
    have halike : x.builder.finish.bare = s.builder.finish.bare := congrArg Builder.finish hs
    rw [map_calls_alike halike, (Spine.grown_finish s).map_calls, hcalls]
    rfl

end SyntaxTree

/-! ## Three tokens one behind the other -/

namespace Arguments

open Decrement

/-- The texts that make an argument decreased. -/
def decrement : List String := ["n", "-", "1"]

/-- A closing parenthesis at the end is none of the three. -/
theorem infix_concat_close (xs : List String) :
    decrement <:+: xs ++ [")"] ↔ decrement <:+: xs := by
  rw [List.infix_concat_iff]
  refine or_iff_right fun hsuffix => ?_
  obtain ⟨front, hfront⟩ := hsuffix
  have hlast := congrArg List.getLast? hfront
  simp [decrement, List.getLast?_append] at hlast

/-- The three are not on both sides of a place where texts are parted. -/
theorem infix_append_of_parted {xs ys : List String} (h : Parted xs ys) :
    decrement <:+: xs ++ ys ↔ decrement <:+: xs ∨ decrement <:+: ys := by
  rw [List.infix_append_iff, ← or_assoc]
  refine or_iff_left_of_imp ?_
  rintro ⟨left, right, hparts, hleft, hright⟩
  -- the text next to the place would be one of the three
  rcases h with hlast | hhead
  · cases left using List.reverseRecOn with
    | nil => exact .inr (hparts ▸ hright.isInfix)
    | append_singleton left x =>
      obtain ⟨front, rfl⟩ := hleft
      rw [← List.append_assoc, List.getLast?_concat] at hlast
      have hmem : ")" ∈ decrement := by
        rw [hparts, ← Option.some.inj hlast]
        simp
      exact absurd hmem (by decide)
  · cases right with
    | nil =>
      rw [List.append_nil] at hparts
      exact .inl (hparts ▸ hleft.isInfix)
    | cons y right =>
      obtain ⟨behind, rfl⟩ := hright
      have hstop : y ∈ stops := hhead y rfl
      have hmem : y ∈ decrement := by
        rw [hparts]
        simp
      have hnone : ∀ y ∈ stops, y ∉ decrement := by decide
      exact absurd hmem (hnone y hstop)

theorem Parted.append {xs ys : List String} (h : Parted xs ys) (front : List String) :
    Parted (front ++ xs) ys := by
  refine h.imp_left fun hlast => ?_
  rw [List.getLast?_append, hlast]
  rfl

/-- The texts of a call and the texts of its tokens have the three at the same places. -/
theorem infix_texts_iff {a : Arguments} (h : a.Orderly) (front : List String) :
    decrement <:+: front ++ a.texts ↔ decrement <:+: front ++ a.taken := by
  induction a generalizing front with
  | done closed =>
    cases closed with
    | true => exact (List.append_nil front).symm ▸ (infix_concat_close front).symm
    | false => exact Iff.rfl
  | word text rest ih =>
    have hrest := ih h (front ++ [text])
    rw [List.append_assoc, List.append_assoc] at hrest
    exact hrest
  | call name inner rest ihi ihr =>
    obtain ⟨hparted, hinner, hrest⟩ := h
    have hclosed : Parted ((front ++ [name, "("] ++ inner.texts) ++ [")"]) rest.texts :=
      .inl List.getLast?_concat
    have htexts : front ++ (call name inner rest).texts =
        ((front ++ [name, "("] ++ inner.texts) ++ [")"]) ++ rest.texts := by
      simp [texts]
    have htaken : front ++ (call name inner rest).taken =
        (front ++ [name, "("] ++ inner.taken) ++ rest.taken := by
      simp [taken]
    rw [htexts, htaken, infix_append_of_parted hclosed, infix_concat_close,
      infix_append_of_parted (hparted.append _)]
    exact or_congr (ihi hinner _) (ihr hrest [])

theorem mem_texts {a : Arguments} {text : String} (h : text ∈ a.texts) :
    text ∈ a.taken ∨ text = ")" := by
  induction a with
  | done closed => cases h
  | word word rest ih =>
    rcases List.mem_cons.1 h with rfl | h
    · exact .inl List.mem_cons_self
    · exact (ih h).imp_left (List.mem_cons_of_mem _)
  | call name inner rest ihi ihr =>
    simp only [texts, List.mem_cons, List.mem_append] at h
    simp only [taken, List.mem_cons, List.mem_append]
    rcases h with h | h | h | h | h
    · exact .inl (.inl h)
    · exact .inl (.inr (.inl h))
    · exact (ihi h).imp_left fun h => .inr (.inr (.inl h))
    · exact .inr h
    · exact (ihr h).imp_left fun h => .inr (.inr (.inr h))

/-- A call is decreasing by its text exactly if it is by the tokens at its site. -/
theorem isDecrementing_of_holds {d : Dialect} {g : Grammar} {ts : List Token}
    {c : String × Arguments} {site : CallSite} (hts : ∀ t ∈ ts, Lexeme g t)
    (h : site.Holds d ts c) (hquoted : ∀ t ∈ site.arguments, t.isQuoted = false) :
    isDecrementing c.1 (callText c.1 c.2.parts) ↔
      decrement <:+: site.arguments.map (·.text) := by
  have hpieces : ∀ text ∈ c.2.texts, IsSymbol text.toList ∨ IsWord text.toList := by
    intro text htext
    rcases mem_texts htext with hmem | rfl
    · rw [h.taken] at hmem
      obtain ⟨t, ht, rfl⟩ := List.mem_map.1 hmem
      exact isSymbol_or_isWord (hts t (h.mem_of_mem_arguments ht)) (hquoted t ht)
    · exact .inl isSymbol_close
  have hsame := infix_texts_iff h.orderly []
  rw [List.nil_append, List.nil_append, h.taken] at hsame
  exact (isDecrementing_callText c.1 c.2 hpieces).trans hsame

end Arguments

namespace SyntaxTree

variable {d : Dialect} {tokens : List Token} {source : String} {t : SyntaxTree}

/-- Each call of a tree that is read has the name and the label of the call at its site. -/
theorem forall₂_calls (h : ofTokens d tokens = .ok t) :
    List.Forall₂ (fun u site => ∃ c : String × Arguments, site.Holds d tokens c ∧
        ((t.kind u).functionName?, t.label u) = Arguments.said c)
      t.calls (Construct.callSites d none tokens) := by
  have hsites := Construct.forall₂_callSites d none tokens
  have hsaid : List.Forall₂ (fun p site => ∃ c : String × Arguments,
      site.Holds d tokens c ∧ p = Arguments.said c)
      (t.calls.map fun u => ((t.kind u).functionName?, t.label u))
      (Construct.callSites d none tokens) := by
    rw [map_calls_ofTokens h]
    exact List.forall₂_map_left_iff.2 (hsites.imp fun c _ hc => ⟨c, hc, rfl⟩)
  exact List.forall₂_map_left_iff.1 hsaid

/-- The calls of a tree that is read are the calls in its tokens, in their order. Each is judged
decreasing by its text exactly if three of its argument tokens are, unless one of these is
quoted. -/
theorem isDecrementing_calls (h : ofTokens d (d.tokenize source) = .ok t) :
    List.Forall₂ (fun u site =>
        (t.kind u).functionName? = some site.name.text ∧
        (∃ a, site.StandsIn d (d.tokenize source) a) ∧
        ((∀ a ∈ site.arguments, a.isQuoted = false) →
          (isDecrementing site.name.text (t.text u) ↔
            ["n", "-", "1"] <:+: site.arguments.map (·.text))))
      t.calls (Construct.callSites d none (d.tokenize source)) := by
  have hlexemes : ∀ token ∈ d.tokenize source, Lexeme d.grammar token :=
    fun token htoken => Scan.lexeme_of_mem_tokens htoken
  refine (forall₂_calls h).imp fun u site hcall => ?_
  obtain ⟨c, hc, hsaid⟩ := hcall
  obtain ⟨hname, hlabel⟩ := Prod.mk.inj hsaid
  refine ⟨hname.trans (congrArg some hc.name), ⟨c.2, hc.stands⟩, fun hquoted => ?_⟩
  have htext : t.text u = Arguments.callText c.1 c.2.parts := by
    rw [text, hlabel, Option.getD_some]
  rw [htext, ← hc.name]
  exact Arguments.isDecrementing_of_holds hlexemes hc hquoted

/-- The call in the arguments ends before the semicolon, and the three tokens behind it belong to
the outer call only. -/
theorem isDecrementing_calls_unclosed :
    ∃ t, ofTokens { grammar := .cLike } (Dialect.tokenize { grammar := .cLike }
        "f((g(n; n - 1") = .ok t ∧
      t.calls = [1, 3] ∧ isDecrementing "f" (t.text 1) = true ∧
      isDecrementing "g" (t.text 3) = false := by
  have heval : (ofTokens { grammar := .cLike } (Dialect.tokenize { grammar := .cLike }
      "f((g(n; n - 1")).bind (fun t => .ok t.calls) = .ok [1, 3] := by cbv
  have hsites : (Construct.callSites { grammar := .cLike } none
      (Dialect.tokenize { grammar := .cLike } "f((g(n; n - 1")).map (fun site =>
        (site.name.text, site.arguments.map (·.text), site.arguments.all (!·.isQuoted))) =
      [("f", ["(", "g", "(", "n", ";", "n", "-", "1"], true), ("g", ["n"], true)] := by cbv
  obtain ⟨t, ht, hvalue⟩ := exists_of_bind_ofTokens heval
  have hcalls : t.calls = [1, 3] := Except.ok.inj hvalue
  have hall := isDecrementing_calls ht
  obtain ⟨f, rest, hrest, hf, hmore⟩ := List.map_eq_cons_iff.1 hsites
  obtain ⟨g, rest, rfl, hg, hnone⟩ := List.map_eq_cons_iff.1 hmore
  obtain rfl := List.map_eq_nil_iff.1 hnone
  obtain ⟨hfname, hf⟩ := Prod.mk.inj hf
  obtain ⟨hfarguments, hfquoted⟩ := Prod.mk.inj hf
  obtain ⟨hgname, hg⟩ := Prod.mk.inj hg
  obtain ⟨hgarguments, hgquoted⟩ := Prod.mk.inj hg
  rw [hcalls, hrest] at hall
  cases hall with
  | cons houter hall =>
    cases hall with
    | cons hinner _ =>
      have hfiff := houter.2.2 (by simpa using hfquoted)
      have hgiff := hinner.2.2 (by simpa using hgquoted)
      rw [hfname, hfarguments] at hfiff
      rw [hgname, hgarguments] at hgiff
      refine ⟨t, ht, hcalls, hfiff.2 (by decide), ?_⟩
      exact Bool.eq_false_iff.2 fun hdecreasing => absurd (hgiff.1 hdecreasing) (by decide)

end SyntaxTree

end GrowthOrder
