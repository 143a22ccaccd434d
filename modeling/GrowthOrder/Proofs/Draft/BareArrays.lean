import GrowthOrder.Proofs.Construct.Brackets
import GrowthOrder.Proofs.Draft.Positions
import GrowthOrder.Proofs.Draft.Unclosed
import Mathlib

/-!
# Arrays without a type

A statement that is only a name with subscripts declares an array. It is recognised by looking ahead
from the name to the semicolon, and only then are the dimensions read, by another scan that does not
know where the first one ended. Over the positions of a list of tokens the two have little in
common: one goes from bracket to bracket by the index of the next closing one, the other takes
token after token. Where looking ahead succeeds, reading ends right before the semicolon that was
found, and there is a dimension for every group that was passed; so the array is never without
dimensions and never cut off.
-/
namespace GrowthOrder

/-! ## The nodes of an array -/

theorem Forest.roots_literals (n : Nat) (sizes : List UInt64) :
    (array.literals sizes).roots n = List.range' n sizes.length := by
  induction sizes generalizing n with
  | nil => rfl
  | cons size sizes ih => rw [array.literals, roots, ih, List.length_cons, List.range'_succ]; rfl

theorem Forest.each_literals (sizes : List UInt64) (above : List NodeKind) :
    (array.literals sizes).Each (fun _ kind _ _ => kind = .literal) above := by
  induction sizes with
  | nil => trivial
  | cons size sizes ih => exact ⟨rfl, trivial, ih⟩

theorem Forest.size_array (name : String) {dimensions : List Dimension} (h : dimensions ≠ []) :
    (array name dimensions).size = 1 + (dimensions.filterMap Dimension.literal?).length := by
  rw [array_of_ne_nil name h, size, size_literals]
  rfl

namespace Builder

variable {b : Builder} {p : Nat} {dimensions : List Dimension}

/-- The new nodes with a tag come behind the old ones. -/
theorem withTag_graft (hp : p < b.tree.size) (F : Forest) (tag : String) :
    (b.graft p F).tree.withTag tag = b.tree.withTag tag ++
      (List.range' b.tree.size F.size).filter fun u => ((b.graft p F).tree.kind u).tag == tag := by
  rw [SyntaxTree.withTag, size_graft hp, List.range_eq_range', ← List.range'_append_1,
    List.filter_append, Nat.zero_add, ← List.range_eq_range', SyntaxTree.withTag]
  congr 1
  refine List.filter_congr fun u hu => ?_
  rw [kind_graft hp F (List.mem_range.1 hu)]

theorem shows_array (hp : p < b.tree.size) (name : String) (h : dimensions ≠ []) :
    (b.graft p (.array name dimensions)).tree.Shows p b.tree.size
      (.cons (.arrayDeclaration ⟨dimensions, h⟩) (some name)
        (Forest.array.literals (Shape.literals ⟨dimensions, h⟩)) .nil) :=
  Forest.array_of_ne_nil name h ▸ SyntaxTree.shows_graft hp _

/-- Of the nodes of an array only the first is one, the others are numbers. -/
theorem withTag_array (hp : p < b.tree.size) (name : String) (h : dimensions ≠ []) :
    (b.graft p (.array name dimensions)).tree.withTag "ArrayDeclaration" =
      b.tree.withTag "ArrayDeclaration" ++ [b.tree.size] := by
  obtain ⟨hnode, hbelow, -⟩ := shows_array hp name h
  have hliteral : ∀ u ∈ List.range' (b.tree.size + 1)
      (dimensions.filterMap Dimension.literal?).length,
      (b.graft p (.array name dimensions)).tree.kind u = .literal := by
    intro u hu
    obtain ⟨hle, hlt⟩ := List.mem_range'_1.1 hu
    obtain ⟨-, hkind, -⟩ := SyntaxTree.exists_of_each hbelow (Forest.each_literals _ _) hle
      (by rw [Forest.size_literals]; exact hlt)
    exact hkind
  rw [withTag_graft hp, Forest.size_array name h, Nat.add_comm 1, List.range'_succ,
    List.filter_cons_of_pos (by rw [SyntaxTree.kind_of_node hnode]; rfl),
    List.filter_eq_nil_iff.2 fun u hu => by rw [hliteral u hu]; decide]

/-- The second builder has one array more than the first, as the last child of the innermost scope,
and below the array a node for each of its dimensions that is a number. -/
structure GainsArray (b c : Builder) (name : String) (dimensions : List Dimension) : Prop where
  arrays : c.tree.withTag "ArrayDeclaration" = b.tree.withTag "ArrayDeclaration" ++ [b.tree.size]
  node : ∃ shape : Shape, shape.dimensions = dimensions ∧ c.tree.nodes[b.tree.size]? = some
    { kind := .arrayDeclaration shape, label := some name, parent := some b.top
      children := List.range' (b.tree.size + 1) shape.literals.length }
  size : c.tree.size = b.tree.size + 1 + (dimensions.filterMap Dimension.literal?).length
  kept : ∀ u < b.tree.size, c.tree.nodes[u]? =
    if b.top = u then
      b.tree.nodes[u]?.map fun n => { n with children := n.children ++ [b.tree.size] }
    else b.tree.nodes[u]?
  scopes : c.scopes = b.scopes

theorem gainsArray_graft (hb : b.Sound) (name : String) (h : dimensions ≠ []) :
    b.GainsArray (b.graft b.top (.array name dimensions)) name dimensions := by
  have htop := top_lt hb
  obtain ⟨hnode, -, -⟩ := shows_array htop name h
  refine ⟨withTag_array htop name h, ⟨⟨dimensions, h⟩, rfl, ?_⟩, ?_, fun u hu => ?_,
    scopes_graft ..⟩
  · rw [hnode, Forest.roots_literals]
  · rw [size_graft htop, Forest.size_array name h, Nat.add_assoc]
  · rw [getElem?_graft htop _ hu, Forest.array_of_ne_nil name h]
    rfl

end Builder

/-! ## Statements that are read as arrays -/

theorem Construct.read_bareArray (d : Dialect) {previous : Option Token} {t : Token}
    {rest : List Token} (hname : t.isIdentifier) (hbrace : t.is "\x7d" = false)
    (hbegins : beginsStatement previous) (hends : Subscript.endsStatement rest) :
    read d previous t rest =
      (bareArray t.text (Subscript.dimensions rest).1, (Subscript.dimensions rest).2) := by
  have hkind : t.kind = .identifier := beq_iff_eq.1 hname
  have hparen : nextIs rest "(" = false :=
    nextIs_eq_false_of_nextIs (Subscript.nextIs_of_endsStatement hends) (by decide)
  rw [read, hkind]
  dsimp only
  rw [plain, hbrace, hname, hparen, hbegins, hends]
  rfl

namespace Indexed

/-- Behind a position stand groups of brackets up to `last`, and then a semicolon. -/
structure Subscripted (tokens : List Token) (pos : Nat) (groups : List BracketGroup)
    (last : Nat) : Prop where
  brackets : tokens.drop (pos + 1) =
    groups.flatMap BracketGroup.tokens ++ tokens.drop (last + 1)
  closed : holds tokens last "]"
  semicolon : holds tokens (last + 1) ";"

variable {d : Dialect} {tokens rest ts : List Token} {t : Token} {turns pos last : Nat}
  {groups : List BracketGroup}

/-! ## Looking ahead -/

theorem findIdx?_group (g : BracketGroup) (ts : List Token) :
    (g.opening :: (g.inside ++ g.closing :: ts)).findIdx? (·.is "]") =
      some (g.inside.length + 1) := by
  rw [List.findIdx?_cons, Token.is_eq_false_of_is g.opening_is (by decide), findIdx?_inside,
    Subscript.inside_group, if_pos (Subscript.length_inside_lt g ts)]
  rfl

/-- A turn of looking ahead passes over a group. -/
theorem subscripts_group (g : BracketGroup)
    (h : Stands tokens pos (g.opening :: (g.inside ++ g.closing :: ts))) (turns : Nat)
    (seen : Bool) : subscripts tokens (turns + 1) (pos + 1) seen =
      subscripts tokens turns (pos + g.tokens.length + 1) true := by
  have hopening : nextIs (g.opening :: (g.inside ++ g.closing :: ts)) "[" := g.opening_is
  rw [subscripts, h.holds_next, if_pos hopening, h.range_next, pure_bind, findIdx?_group,
    g.length_tokens]
  dsimp only
  congr 1
  omega

/-- As many turns as there are groups lead behind them. -/
theorem subscripts_groups (hgroups : groups ≠ [])
    (h : Stands tokens pos (groups.flatMap BracketGroup.tokens ++ ts)) (turns : Nat)
    (seen : Bool) : subscripts tokens (turns + groups.length) (pos + 1) seen =
      subscripts tokens turns (pos + (groups.flatMap BracketGroup.tokens).length + 1) true := by
  induction groups generalizing pos seen with
  | nil => exact absurd rfl hgroups
  | cons g groups ih =>
    rw [List.flatMap_cons, List.append_assoc] at h
    have hbehind := h.behind
    rw [g.tokens_append] at h
    rw [List.length_cons, ← Nat.add_assoc, subscripts_group g h, List.flatMap_cons,
      List.length_append, ← Nat.add_assoc]
    cases groups with
    | nil => rfl
    | cons g' groups => exact ih (List.cons_ne_nil _ _) hbehind true

/-! ## What stands behind a name -/

namespace Subscripted

theorem exists_semicolon (h : Subscripted tokens pos groups last) :
    ∃ semicolon after, semicolon.is ";" ∧ tokens.drop (last + 1) = semicolon :: after := by
  obtain ⟨semicolon, hget, hsemicolon⟩ := Option.any_eq_true _ _ |>.1 h.semicolon
  obtain ⟨hlt, rfl⟩ := List.getElem?_eq_some_iff.1 hget
  exact ⟨_, _, hsemicolon, List.drop_eq_getElem_cons hlt⟩

theorem last_eq (h : Subscripted tokens pos groups last) :
    last = pos + (groups.flatMap BracketGroup.tokens).length := by
  obtain ⟨semicolon, after, -, hafter⟩ := h.exists_semicolon
  have hlast := congrArg List.length hafter
  have hall := congrArg List.length h.brackets
  rw [List.length_append] at hall
  rw [List.length_cons] at hlast
  rw [List.length_drop] at hlast hall
  rw [List.length_drop] at hall
  omega

theorem groups?_eq (h : Subscripted tokens pos groups last) :
    Subscript.groups? (tokens.drop (pos + 1)) = some groups.length := by
  obtain ⟨semicolon, after, hsemicolon, hafter⟩ := h.exists_semicolon
  exact Subscript.groups?_eq_some_iff.2
    ⟨groups, semicolon, after, rfl, hsemicolon, hafter ▸ h.brackets⟩

theorem dimensions_eq (h : Subscripted tokens pos groups last) :
    Subscript.dimensions (tokens.drop (pos + 1)) =
      (groups.map BracketGroup.dimension, last - pos) := by
  obtain ⟨semicolon, after, hsemicolon, hafter⟩ := h.exists_semicolon
  have hbracket : nextIs (tokens.drop (last + 1)) "[" = false := by
    rw [hafter]
    exact Token.is_eq_false_of_is hsemicolon (by decide)
  rw [h.brackets, Subscript.dimensions_groups groups hbracket, h.last_eq, Nat.add_sub_cancel_left]

end Subscripted

/-- Looking ahead succeeds only where there are groups and then a semicolon. -/
theorem exists_subscripted (hpos : pos < tokens.length)
    (h : Subscript.endsStatement (tokens.drop (pos + 1))) :
    ∃ groups last, groups ≠ [] ∧ Subscripted tokens pos groups last := by
  obtain ⟨n, hn, hpositive⟩ := Subscript.endsStatement_iff.1 h
  obtain ⟨groups, semicolon, after, rfl, hsemicolon, hrest⟩ := Subscript.groups?_eq_some_iff.1 hn
  have hgroups : groups ≠ [] := List.length_pos_iff.1 hpositive
  have hstands : Stands tokens pos (groups.flatMap BracketGroup.tokens ++ semicolon :: after) :=
    ⟨hpos, hrest⟩
  have hbehind := hstands.behind
  refine ⟨groups, pos + (groups.flatMap BracketGroup.tokens).length, hgroups, ⟨?_, ?_, ?_⟩⟩
  · rw [hrest, hbehind.drop]
  · rw [holds, hstands.getElem?_last (BracketGroup.flatMap_ne_nil hgroups)]
    exact BracketGroup.getLast?_flatMap hgroups
  · rw [hbehind.holds_next]
    exact hsemicolon

/-- Where looking ahead succeeds at the beginning of a statement, an array is read. -/
theorem step_bareArray {s : Cursor} (hs : Cursor.Reached d tokens s) (hpos : s.done.length = pos)
    (ht : tokens[pos]? = some t) (hname : t.isIdentifier) (hbrace : t.is "\x7d" = false)
    (hbegins : Construct.beginsStatement s.done.getLast?) (hgroups : groups ≠ [])
    (h : Subscripted tokens pos groups last) :
    ∃ y, Cursor.Step d s ⟨tokens.take (last + 1), y, tokens.drop (last + 1)⟩ ∧
      s.draft.builder.GainsArray y.builder t.text (groups.map BracketGroup.dimension) := by
  have hsound := hs.marked.nested.sound
  obtain ⟨done, x, rest⟩ := s
  obtain rfl : done ++ rest = tokens := hs.append_eq
  obtain rfl : done.length = pos := hpos
  cases rest with
  | nil => simp at ht
  | cons u rest =>
    obtain rfl : u = t := by rwa [getElem?_done, Option.some.injEq] at ht
    have hrest := (stands_append done u rest).drop
    have hends : Subscript.endsStatement rest :=
      Subscript.endsStatement_iff.2 ⟨_, hrest ▸ h.groups?_eq, List.length_pos_iff.2 hgroups⟩
    have hread := Construct.read_bareArray d hname hbrace hbegins hends
    obtain rfl := h.last_eq
    rw [← hrest, h.dimensions_eq, hrest, Nat.add_sub_cancel_left] at hread
    refine ⟨x.graft (.array u.text (groups.map BracketGroup.dimension)), ?_,
      Builder.gainsArray_graft hsound _ (mt List.map_eq_nil_iff.1 hgroups)⟩
    rw [Nat.add_assoc, List.take_length_add_append, List.drop_length_add_append,
      List.take_succ_cons, List.drop_succ_cons]
    exact .read hread rfl

/-- For every list of tokens and every name in it: looking ahead over positions tells what looking
ahead over the rest tells. It succeeds exactly if groups of brackets, at least one, stand behind the
name up to a closing bracket right before a semicolon. Then it counts these groups, passes one in
each turn and stops at that semicolon; the dimensions are read up to that bracket, one for each
group. If the name begins a statement and is no brace, the next step takes the same tokens, leaves
the semicolon next and adds exactly one array. -/
theorem subscripts_read_as_seen (d : Dialect) (tokens : List Token) (turns pos : Nat) (t : Token)
    (hturns : tokens.length < turns) (ht : tokens[pos]? = some t) (hname : t.isIdentifier) :
    subscripts tokens turns (pos + 1) false =
      .ok (Subscript.endsStatement (tokens.drop (pos + 1))) ∧
    (Subscript.endsStatement (tokens.drop (pos + 1)) ↔
      ∃ groups last, 0 < groups.length ∧ Subscripted tokens pos groups last ∧
        Subscript.groups? (tokens.drop (pos + 1)) = some groups.length ∧
        (∀ more, subscripts tokens (more + groups.length) (pos + 1) false =
          subscripts tokens more (last + 1) true) ∧
        Subscript.dimensions (tokens.drop (pos + 1)) =
          (groups.map BracketGroup.dimension, last - pos) ∧
        dimensions tokens turns pos = .ok (groups.map BracketGroup.dimension, last) ∧
        (t.is "\x7d" = false → ∀ s, Cursor.Reached d tokens s → s.done.length = pos →
          Construct.beginsStatement s.done.getLast? →
          ∃ y, Cursor.Step d s ⟨tokens.take (last + 1), y, tokens.drop (last + 1)⟩ ∧
            s.draft.builder.GainsArray y.builder t.text
              (groups.map BracketGroup.dimension))) := by
  have hpos : pos < tokens.length := (List.getElem?_eq_some_iff.1 ht).1
  have hstands : Stands tokens pos (tokens.drop (pos + 1)) := ⟨hpos, rfl⟩
  have hrest := length_lt_turns hstands hturns
  refine ⟨subscripts_start_eq hstands hrest, ?_, ?_⟩
  · intro hends
    obtain ⟨groups, last, hgroups, h⟩ := exists_subscripted hpos hends
    refine ⟨groups, last, List.length_pos_iff.2 hgroups, h, h.groups?_eq, ?_, h.dimensions_eq, ?_,
      fun hbrace s hs hplace hbegins =>
        step_bareArray hs hplace ht hname hbrace hbegins hgroups h⟩
    · intro more
      rw [h.last_eq]
      exact subscripts_groups hgroups (h.brackets ▸ hstands) more false
    · have hlast : pos + (last - pos) = last := by
        rw [h.last_eq, Nat.add_sub_cancel_left]
      rw [dimensions_eq hstands hrest, h.dimensions_eq, landing, hlast]
      rfl
  · rintro ⟨groups, last, hpositive, h, -⟩
    exact Subscript.endsStatement_iff.2 ⟨_, h.groups?_eq, hpositive⟩

/-- An opening bracket inside a group, and a group with nothing inside. -/
theorem subscripts_read_as_seen_nested :
    let d : Dialect := { grammar := .cLike }
    let a : Token := ⟨.identifier, "a"⟩
    let tokens : List Token := [a, ⟨.separator, "["⟩, ⟨.separator, "["⟩, ⟨.identifier, "n"⟩,
      ⟨.separator, "]"⟩, ⟨.separator, "["⟩, ⟨.separator, "]"⟩, ⟨.separator, ";"⟩]
    tokens.length < 9 ∧ tokens[0]? = some a ∧ a.isIdentifier ∧
      Subscript.endsStatement (tokens.drop 1) ∧
      Subscript.groups? (tokens.drop 1) = some 2 ∧
      subscripts tokens 3 1 false = subscripts tokens 1 7 true ∧
      Subscript.dimensions (tokens.drop 1) = ([.symbolic "[ n", .unsized], 6) ∧
      ∃ y, Cursor.Step d (.start tokens) ⟨tokens.take 7, y, [⟨.separator, ";"⟩]⟩ ∧
        Builder.start.GainsArray y.builder "a" [.symbolic "[ n", .unsized] := by
  intro d a tokens
  have hread : dimensions tokens 9 0 = .ok ([.symbolic "[ n", .unsized], 6) := by cbv
  have hseen : subscripts tokens 9 1 false = .ok true := by cbv
  obtain ⟨hlook, hiff⟩ := subscripts_read_as_seen d tokens 9 0 a (by decide) rfl rfl
  have hends := Except.ok.inj (hlook.symm.trans hseen)
  obtain ⟨groups, last, -, -, hcount, hahead, hdimensions, hwalk, hstep⟩ := hiff.1 hends
  obtain ⟨hgroups, rfl⟩ := Prod.mk.inj (Except.ok.inj (hwalk.symm.trans hread))
  have hlength : groups.length = 2 := by rw [← List.length_map, hgroups]; rfl
  rw [hgroups] at hdimensions hstep
  rw [hlength] at hcount hahead
  exact ⟨by decide, rfl, rfl, hends, hcount, hahead 1, hdimensions,
    hstep (by decide) (.start tokens) .refl rfl rfl⟩

end Indexed

end GrowthOrder
