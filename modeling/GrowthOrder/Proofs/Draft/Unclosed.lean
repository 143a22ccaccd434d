import GrowthOrder.Proofs.Construct.Extent
import GrowthOrder.Proofs.Draft.Form
import GrowthOrder.Proofs.Draft.Run
import GrowthOrder.Proofs.Tree.Scopes

/-!
# The open scopes of a finished tree

A brace is put into the scope that it closes, and nothing is put into a scope after that. So an open
scope is one that does not end in a brace, and the stack of the builder can be read off its tree at
every step, and off the finished tree at the end.
-/
namespace GrowthOrder

/-- The kinds that are open from their beginning until a brace closes them. -/
def NodeKind.isBraced (g : Grammar) (k : NodeKind) : Bool :=
  k.isInnerScope && !(k.isForLoop && g == .javaLike)

namespace SyntaxTree

/-- Whether the last child of a node is a closing brace. -/
def endsInBrace (t : SyntaxTree) (u : Nat) : Bool :=
  (t.children u).getLast?.any fun c => t.kind c == .expression && t.label c == some "\x7d"

/-- Whether a node would be closed by a brace and is not. -/
def isUnclosed (g : Grammar) (t : SyntaxTree) (u : Nat) : Bool :=
  (t.kind u).isBraced g && !t.endsInBrace u

end SyntaxTree

namespace NodeKind

variable {g : Grammar} {k : NodeKind} {row : List (NodeKind × Option String)}

theorem isBraced_bare (g : Grammar) (k : NodeKind) : k.bare.isBraced g = k.isBraced g :=
  apply_bare (isBraced g) (fun _ => rfl) k

theorem isBraced_eq_false (h : k.isInnerScope = false) : k.isBraced g = false := by
  rw [isBraced, h, Bool.false_and]

theorem isInnerScope_of_isCall (h : k.isCall) : k.isInnerScope = false := by
  cases k with
  | functionCall | recursiveCall => rfl
  | _ => cases h

theorem isInnerScope_of_isAtom (h : k.isAtom) : k.isInnerScope = false := by
  cases k with
  | conditional | functionDeclaration | loop => cases h
  | _ => rfl

/-- Below a kind that no brace closes there is none that a brace would close. -/
theorem not_isBraced_of_admits {inFor : Bool} (hk : k.isBraced g = false)
    (hstands : k.Stands g inFor) (hadmits : k.Admits g row) :
    ∀ n ∈ row, n.1.isBraced g = false := by
  intro n hn
  cases k with
  | program | block => exact hstands.elim
  | conditional | functionDeclaration => cases hk
  | loop form header =>
    cases form with
    | whileLoop | doWhile => cases hk
    | forLoop =>
      have hg : g = .javaLike := by
        cases g with
        | cLike => cases hk
        | javaLike => rfl
      have hclause := (hadmits hg).subset (List.mem_map_of_mem hn)
      simp only [List.mem_cons, List.not_mem_nil, or_false] at hclause
      rcases hclause with h | h | h <;> rw [h] <;> rfl
  | typeDeclaration d =>
    rw [Admits] at hadmits
    split at hadmits
    · obtain ⟨shape, label, rfl, -⟩ := hadmits
      obtain rfl := List.mem_singleton.1 hn
      rfl
    · rw [hadmits.2] at hn
      cases hn
  | arrayDeclaration shape =>
    rw [show row = _ from hadmits] at hn
    obtain ⟨size, -, rfl⟩ := List.mem_map.1 hn
    rfl
  | functionCall | recursiveCall =>
    rcases hadmits n hn with h | h
    · rw [h]
      rfl
    · exact isBraced_eq_false (isInnerScope_of_isCall h)
  | initialization | condition | update =>
    rw [hadmits n hn]
    rfl
  | returnStatement | newInstance | specialReference | typedef | sizeof | expression | literal
  | unknown =>
    rw [show row = [] from hadmits] at hn
    cases hn

/-- A formed forest without such kinds at the top has none at all. -/
theorem each_not_isBraced {F : Forest} {above : List NodeKind} (hF : F.Each (Formed g) above)
    (hrow : ∀ n ∈ F.row, n.1.isBraced g = false) (above' : List NodeKind) :
    F.Each (fun _ k _ _ => k.isBraced g = false) above' := by
  induction F generalizing above above' with
  | nil => trivial
  | cons kind label children siblings ihc ihs =>
    obtain ⟨hformed, hchildren, hsiblings⟩ := hF
    obtain ⟨hkind, hrest⟩ := List.forall_mem_cons.1 hrow
    have hkind : kind.isBraced g = false := (isBraced_bare g kind).symm.trans hkind
    have hbelow := not_isBraced_of_admits hkind hformed.stands hformed.admits
    exact ⟨hkind, ihc hchildren hbelow _, ihs hsiblings hrest _⟩

end NodeKind

namespace SyntaxTree

variable {t t' : SyntaxTree} {g : Grammar} {u : Nat}

theorem endsInBrace_iff :
    t.endsInBrace u ↔ (t.row u).getLast? = some (.expression, some "\x7d") := by
  rw [row, List.getLast?_map, endsInBrace]
  cases (t.children u).getLast? with
  | none => simp
  | some c =>
    have hbare : (t.kind c).bare = .expression ↔ t.kind c = .expression :=
      NodeKind.bare_eq_iff rfl
    simp [hbare]

theorem isUnclosed_iff : t.isUnclosed g u ↔
    (t.kind u).isBraced g ∧ (t.row u).getLast? ≠ some (.expression, some "\x7d") := by
  rw [isUnclosed, Bool.and_eq_true, Bool.not_eq_true', ← Bool.not_eq_true, endsInBrace_iff]

theorem isUnclosed_alike (h : t.bare = t'.bare) (u : Nat) :
    t.isUnclosed g u ↔ t'.isUnclosed g u := by
  rw [isUnclosed_iff, isUnclosed_iff, row_alike h, ← NodeKind.isBraced_bare g (t.kind u),
    kind_alike h, NodeKind.isBraced_bare]

end SyntaxTree

namespace Builder

variable {b b' : Builder} {g : Grammar} {p u : Nat} {F : Forest}

/-- The scopes of the stack are those that the tree shows to be open. -/
structure Marked (g : Grammar) (b : Builder) : Prop where
  nested : b.Nested
  mem_iff : ∀ u, u ∈ b.scopes ↔ b.tree.isUnclosed g u

theorem marked_start (g : Grammar) : start.Marked g := by
  refine ⟨nested_start, fun u => ?_⟩
  cases u with
  | zero => exact ⟨fun hu => (by cases hu), fun hu => (by cases hu)⟩
  | succ u => exact ⟨fun hu => (by cases hu), fun hu => (by cases hu)⟩

theorem Nested.pairwise_scopes (h : b.Nested) : b.scopes.Pairwise (· > ·) := by
  have hchain : (b.scopes ++ [0]).IsChain (· > ·) :=
    h.chain.imp fun _ _ hparent => SyntaxTree.parent_eq_some_lt hparent
  exact (List.pairwise_append.1 (List.isChain_iff_pairwise.1 hchain)).1

/-- Each open scope is around those that were opened in it. -/
theorem Nested.pairwise_lineage (h : b.Nested) :
    b.scopes.Pairwise fun c p => p ∈ b.finish.lineage c := by
  have : Trans (fun c p => p ∈ b.finish.lineage c) (fun c p => p ∈ b.finish.lineage c)
      fun c p => p ∈ b.finish.lineage c := ⟨SyntaxTree.mem_lineage_trans⟩
  have hchain : (b.scopes ++ [0]).IsChain fun c p => p ∈ b.finish.lineage c := by
    refine h.chain.imp fun c p hparent => ?_
    rw [SyntaxTree.lineage_of_parent (t := b.finish) hparent]
    exact List.mem_cons_self
  exact (List.pairwise_append.1 (List.isChain_iff_pairwise.1 hchain)).1

theorem Nested.mem_tail_iff (h : b.Nested) (u : Nat) :
    u ∈ b.scopes.tail ↔ u ≠ b.top ∧ u ∈ b.scopes := by
  have hpairwise := h.pairwise_scopes
  rw [top]
  cases hscopes : b.scopes with
  | nil => exact iff_of_false List.not_mem_nil fun hand => List.not_mem_nil hand.2
  | cons id outer =>
    rw [hscopes] at hpairwise
    have hlt := (List.pairwise_cons.1 hpairwise).1
    show u ∈ outer ↔ u ≠ id ∧ u ∈ id :: outer
    constructor
    · intro hu
      exact ⟨Nat.ne_of_lt (hlt u hu), List.mem_cons_of_mem id hu⟩
    · rintro ⟨hne, hu⟩
      exact (List.mem_cons.1 hu).resolve_left hne

theorem Nested.top_mem (h : b.Nested) (htop : (b.tree.kind b.top).isBraced g) :
    b.top ∈ b.scopes := by
  cases hscopes : b.scopes with
  | nil =>
    rw [top, hscopes] at htop
    rw [show List.headD [] 0 = 0 from rfl, h.kind_root] at htop
    cases htop
  | cons id outer =>
    rw [top, hscopes]
    exact List.mem_cons_self

theorem nested_graft (h : b.Nested) (hp : p < b.tree.size) (F : Forest) :
    (b.graft p F).Nested := by
  induction F generalizing b p with
  | nil => exact h
  | cons k l ch sib ihc ihs =>
    have hs : (b.attach p k l).tree.size = b.tree.size + 1 := SyntaxTree.size_attach hp
    have hc := ihc (nested_attach h hp k l) (p := b.tree.size) (by omega)
    refine ihs hc ?_
    rw [size_graft (by omega)]
    omega

/-- What is put into the innermost scope leaves it open, unless a brace comes last. -/
theorem Marked.mem_iff_graft (h : b.Marked g)
    (hlast : F.row.getLast? ≠ some (.expression, some "\x7d")) (hu : u < b.tree.size) :
    u ∈ b.scopes ↔ (b.graft b.top F).tree.isUnclosed g u := by
  have htop := top_lt h.nested.sound
  rw [SyntaxTree.isUnclosed_iff, kind_graft htop F hu, row_graft htop F hu]
  by_cases heq : b.top = u
  · rw [if_pos heq, List.getLast?_append]
    constructor
    · intro hmem
      obtain ⟨hbraced, hrow⟩ := SyntaxTree.isUnclosed_iff.1 ((h.mem_iff u).1 hmem)
      refine ⟨hbraced, fun hor => ?_⟩
      rcases Option.or_eq_some_iff.1 hor with hnew | ⟨-, hold⟩
      · exact hlast hnew
      · exact hrow hold
    · rintro ⟨hbraced, _⟩
      subst heq
      exact h.nested.top_mem hbraced
  · rw [if_neg heq, List.append_nil, ← SyntaxTree.isUnclosed_iff]
    exact h.mem_iff u

theorem not_mem_scopes (h : b.Sound) (hu : b.tree.size ≤ u) : u ∉ b.scopes :=
  fun hmem => absurd (h.scopes_lt u hmem) (Nat.not_lt.2 hu)

theorem marked_graft (h : b.Marked g)
    (hF : ∀ above, F.Each (fun _ k _ _ => k.isBraced g = false) above)
    (hlast : F.row.getLast? ≠ some (.expression, some "\x7d")) :
    (b.graft b.top F).Marked g := by
  have htop := top_lt h.nested.sound
  refine ⟨nested_graft h.nested htop F, fun u => ?_⟩
  rw [scopes_graft]
  by_cases hu : u < b.tree.size
  · exact h.mem_iff_graft hlast hu
  · refine ⟨fun hmem => absurd hmem (not_mem_scopes h.nested.sound (by omega)), fun hopen => ?_⟩
    have hbraced := (SyntaxTree.isUnclosed_iff.1 hopen).1
    have hkind : ((b.graft b.top F).tree.kind u).isBraced g = false := by
      by_cases hnew : u < b.tree.size + F.size
      · obtain ⟨_, hkind, -⟩ := SyntaxTree.exists_of_each (SyntaxTree.shows_graft htop F) (hF _)
          (Nat.not_lt.1 hu) hnew
        exact hkind
      · rw [SyntaxTree.kind_of_size_le (by rw [size_graft htop]; omega)]
        rfl
    rw [hkind] at hbraced
    cases hbraced

/-- A new node is open if a brace can close it. -/
theorem isUnclosed_leaf (h : b.Sound) (k : NodeKind) (l : String) :
    (b.graft b.top (.leaf k l)).tree.isUnclosed g b.tree.size ↔ k.isBraced g := by
  obtain ⟨hnode, -⟩ := SyntaxTree.shows_graft (top_lt h) (.leaf k l)
  have hkind := SyntaxTree.kind_of_node hnode
  have hrow : (b.graft b.top (.leaf k l)).tree.row b.tree.size = [] := by
    rw [SyntaxTree.row, SyntaxTree.children_of_node hnode]
    rfl
  rw [SyntaxTree.isUnclosed_iff, hkind, hrow]
  exact and_iff_left fun hnone => (by cases hnone)

theorem not_isUnclosed_of_size_le {t : SyntaxTree} (h : t.size ≤ u) : ¬ t.isUnclosed g u := by
  intro hopen
  have hbraced := (SyntaxTree.isUnclosed_iff.1 hopen).1
  rw [SyntaxTree.kind_of_size_le h] at hbraced
  cases hbraced

theorem marked_enter (h : b.Marked g) {k : NodeKind} (hk : k.isBraced g) (l : String) :
    (b.enter k (some l)).Marked g := by
  have htop := top_lt h.nested.sound
  have hlast : (Forest.leaf k l).row.getLast? ≠ some (.expression, some "\x7d") := by
    intro heq
    have hbare : k.bare = .expression := congrArg Prod.fst (Option.some.inj heq)
    rw [← NodeKind.isBraced_bare, hbare] at hk
    cases hk
  refine ⟨nested_enter h.nested k (some l), fun u => ?_⟩
  show u ∈ b.tree.size :: b.scopes ↔ (b.graft b.top (.leaf k l)).tree.isUnclosed g u
  rcases Nat.lt_trichotomy u b.tree.size with hlt | rfl | hgt
  · rw [List.mem_cons, or_iff_right (Nat.ne_of_lt hlt)]
    exact h.mem_iff_graft hlast hlt
  · exact iff_of_true List.mem_cons_self ((isUnclosed_leaf h.nested.sound k l).2 hk)
  · refine iff_of_false ?_ (not_isUnclosed_of_size_le (by rw [size_graft htop]; exact hgt))
    rw [List.mem_cons, or_iff_right (Nat.ne_of_gt hgt)]
    exact not_mem_scopes h.nested.sound (Nat.le_of_lt hgt)

/-- A brace is the last thing that comes into the innermost scope. -/
theorem marked_close (h : b.Marked g) :
    ((b.leaf .expression (some "\x7d")).leave.2).Marked g := by
  have htop := top_lt h.nested.sound
  refine ⟨nested_leave (nested_graft h.nested htop (.leaf .expression "\x7d")), fun u => ?_⟩
  rw [leave_eq]
  show u ∈ b.scopes.tail ↔ (b.graft b.top (.leaf .expression "\x7d")).tree.isUnclosed g u
  have hmem := h.nested.mem_tail_iff u
  rcases Nat.lt_trichotomy u b.tree.size with hlt | rfl | hgt
  · rw [hmem, SyntaxTree.isUnclosed_iff, kind_graft htop _ hlt, row_graft htop _ hlt]
    by_cases heq : b.top = u
    · rw [if_pos heq]
      exact iff_of_false (fun hand => hand.1 heq.symm) fun hand => hand.2 (by
        rw [List.getLast?_append]
        rfl)
    · rw [if_neg heq, List.append_nil, ← SyntaxTree.isUnclosed_iff, ← h.mem_iff u]
      exact and_iff_right (Ne.symm heq)
  · rw [hmem, isUnclosed_leaf h.nested.sound]
    exact iff_of_false (fun hand => not_mem_scopes h.nested.sound (Nat.le_refl _) hand.2)
      (fun hbraced => (by cases hbraced))
  · rw [hmem]
    exact iff_of_false (fun hand => not_mem_scopes h.nested.sound (Nat.le_of_lt hgt) hand.2)
      (not_isUnclosed_of_size_le (by rw [size_graft htop]; exact hgt))

theorem marked_alike (h : b.Marked g) (hb : b'.bare = b.bare) : b'.Marked g := by
  have htree : b'.tree.bare = b.tree.bare := congrArg tree hb
  have hscopes : b'.bare.scopes = b.bare.scopes := congrArg scopes hb
  have hscopes : b'.scopes = b.scopes := hscopes
  have hparent : ∀ i, b'.tree.parent i = b.tree.parent i := by
    intro i
    rw [← SyntaxTree.parent_bare, htree, SyntaxTree.parent_bare]
  have hsize := SyntaxTree.size_alike htree
  obtain ⟨⟨⟨hlinked, hroot, hlt⟩, hkind, hchain⟩, hmem⟩ := h
  refine ⟨⟨⟨?_, hsize ▸ hroot, ?_⟩, ?_, ?_⟩, fun u => ?_⟩
  · rwa [← SyntaxTree.linked_bare, htree, SyntaxTree.linked_bare]
  · rwa [hscopes, hsize]
  · have hbare := SyntaxTree.kind_alike htree 0
    rw [hkind] at hbare
    exact (NodeKind.bare_eq_iff rfl).1 hbare
  · simpa only [hscopes, hparent] using hchain
  · rw [hscopes, hmem u, SyntaxTree.isUnclosed_alike htree]

end Builder

/-! ## Along a run -/

namespace Construct

variable {g : Grammar} {c : Construct}

/-- What a construct puts into a scope neither waits for a brace nor is one. -/
theorem row_nodes? {enclosing : Option String} {F : Forest} (hc : c.Regular g)
    (hbrace : c ≠ .leaf .expression "\x7d") (h : c.nodes? enclosing = some F) :
    ∀ n ∈ F.row, n.1.isBraced g = false ∧ n ≠ (.expression, some "\x7d") := by
  intro n hn
  cases c with
  | leaf kind label =>
    cases h
    obtain rfl := List.mem_singleton.1 hn
    refine ⟨?_, fun heq => ?_⟩
    · exact (NodeKind.isBraced_bare g kind).trans
        (NodeKind.isBraced_eq_false (NodeKind.isInnerScope_of_isAtom hc))
    · obtain ⟨hkind, hlabel⟩ := Prod.mk.inj heq
      rw [(NodeKind.bare_eq_iff rfl).1 hkind, Option.some.inj hlabel] at hbrace
      exact hbrace rfl
  | forLoop label header =>
    have hg : g = .javaLike := by
      cases header with
      | clauses | absent =>
        cases g with
        | cLike => cases hc
        | javaLike => rfl
      | positional | cut => cases h
    subst hg
    cases header with
    | clauses | absent =>
      cases h
      obtain rfl := List.mem_singleton.1 hn
      exact ⟨rfl, fun heq => (by cases heq)⟩
    | positional | cut => cases h
  | typedArray typeName name dimensions =>
    cases h
    obtain rfl := List.mem_singleton.1 hn
    exact ⟨rfl, fun heq => (by cases heq)⟩
  | bareArray name dimensions =>
    cases h
    by_cases hd : dimensions = []
    · subst hd
      cases hn
    · rw [Forest.array_of_ne_nil name hd] at hn
      obtain rfl := List.mem_singleton.1 hn
      exact ⟨rfl, fun heq => (by cases heq)⟩
  | call name arguments =>
    cases h
    obtain rfl := List.mem_singleton.1 hn
    have hcall := NodeKind.isCall_callKind enclosing name
    refine ⟨?_, fun heq => ?_⟩
    · exact (NodeKind.isBraced_bare g _).trans
        (NodeKind.isBraced_eq_false (NodeKind.isInnerScope_of_isCall hcall))
    · rw [(NodeKind.bare_eq_iff rfl).1 (Prod.mk.inj heq).1] at hcall
      cases hcall
  | scope | close | whileLoop => cases h

theorem isBraced_of_scope? {kind : NodeKind} {label : String} (hc : c.Regular g)
    (h : c.scope? = some (kind, label)) : kind.isBraced g := by
  cases c with
  | scope opener text =>
    cases h
    have hopener : kind.isOpener := hc
    unfold NodeKind.isOpener at hopener
    split at hopener
    · rfl
    · rfl
    · rfl
    · cases hopener
  | forLoop text header =>
    cases header with
    | positional i c u =>
      cases h
      cases g with
      | cLike => rfl
      | javaLike => cases hc
    | clauses | absent | cut => cases h
  | whileLoop text afterBrace condition =>
    cases condition with
    | unread | token =>
      cases h
      rfl
    | cut => cases h
  | leaf | close | typedArray | bareArray | call => cases h

end Construct

theorem Draft.marked_add {x y : Draft} {c : Construct} {g : Grammar} (hx : x.builder.Marked g)
    (hc : c.Regular g) (hbrace : c ≠ .leaf .expression "\x7d") (h : x.add c = .ok y) :
    y.builder.Marked g := by
  rcases add_cases h with ⟨F, hF, rfl⟩ | ⟨kind, label, hscope, rfl⟩ | ⟨rfl, hbuilder, -⟩ |
    ⟨label, condition, id, rfl, -, hbare, -⟩
  · have hrow := Construct.row_nodes? hc hbrace hF
    rw [enclosing?, SyntaxTree.enclosingFunction?_name] at hF
    refine Builder.marked_graft hx ?_ ?_
    · exact NodeKind.each_not_isBraced (NodeKind.formed_nodes? hc hF) fun n hn => (hrow n hn).1
    · intro hlast
      exact (hrow _ (List.mem_of_getLast? hlast)).2 rfl
  · exact Builder.marked_enter hx (Construct.isBraced_of_scope? hc hscope) label
  · rw [hbuilder]
    exact Builder.marked_close hx
  · exact Builder.marked_alike hx hbare

theorem Cursor.Reached.marked {d : Dialect} {tokens : List Token} {s : Cursor}
    (h : Reached d tokens s) : s.draft.builder.Marked d.grammar := by
  induction h with
  | refl => exact Builder.marked_start d.grammar
  | tail _ hstep ih =>
    cases hstep with
    | @read done rest t x y c n hread hadd =>
      have hfirst : (Construct.read d done.getLast? t rest).1 = c := congrArg Prod.fst hread
      have hregular : c.Regular d.grammar := hfirst ▸ Construct.regular_read
      refine Draft.marked_add ih hregular ?_ hadd
      rintro rfl
      cases Construct.reads_of_read_eq hread with
      | ordinary hordinary _ => exact hordinary rfl rfl

namespace SyntaxTree

variable {d : Dialect} {tokens : List Token} {t : SyntaxTree}

/-- The nodes that a brace would close and that do not end in one are the scopes that were left
open, and each of them is around the next. -/
theorem unclosedScopes_eq (h : ofTokens d tokens = .ok t) :
    t.unclosedScopes = ((List.range t.size).filter (t.isUnclosed d.grammar)).length ∧
      ((List.range t.size).filter (t.isUnclosed d.grammar)).Pairwise fun u v => u ∈ t.lineage v := by
  obtain ⟨x, hx, rfl⟩ := exists_reached_of_ok h
  obtain ⟨hnested, hmem⟩ := hx.marked
  have hrange := (List.pairwise_lt_range (n := x.builder.finish.size)).filter
    (x.builder.finish.isUnclosed d.grammar)
  have hscopes : x.builder.scopes.reverse.Pairwise (· < ·) :=
    List.pairwise_reverse.2 hnested.pairwise_scopes
  have hsame : ∀ u, u ∈ (List.range x.builder.finish.size).filter
      (x.builder.finish.isUnclosed d.grammar) ↔ u ∈ x.builder.scopes.reverse := by
    intro u
    rw [List.mem_filter, List.mem_range, List.mem_reverse, hmem u]
    refine and_iff_right_of_imp fun hopen => ?_
    exact hnested.sound.scopes_lt u ((hmem u).2 hopen)
  have hperm := (List.perm_ext_iff_of_nodup (hrange.imp Nat.ne_of_lt)
    (hscopes.imp Nat.ne_of_lt)).2 hsame
  have heq := hperm.eq_of_pairwise (fun u v _ _ huv hvu => absurd hvu (Nat.lt_asymm huv)) hrange
    hscopes
  rw [heq, List.length_reverse]
  exact ⟨rfl, List.pairwise_reverse.2 hnested.pairwise_lineage⟩

theorem unclosedScopes_eq_nested : ∃ t, ofTokens { grammar := .cLike } (Grammar.tokenize .cLike
      "if (x) \x7b while (y) \x7b z; \x7d do \x7b") = .ok t ∧ t.unclosedScopes = 2 ∧
    ((List.range t.size).filter (t.isUnclosed .cLike)).length = 2 := by
  have heval : (ofTokens { grammar := .cLike } (Grammar.tokenize .cLike
      "if (x) \x7b while (y) \x7b z; \x7d do \x7b")).bind (fun t => .ok t.unclosedScopes) =
        .ok 2 := by cbv
  obtain ⟨t, ht, hcount⟩ := exists_of_bind_ofTokens heval
  have hcount : t.unclosedScopes = 2 := Except.ok.inj hcount
  exact ⟨t, ht, hcount, (unclosedScopes_eq ht).1.symm.trans hcount⟩

end SyntaxTree

end GrowthOrder
