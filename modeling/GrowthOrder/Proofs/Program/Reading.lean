import GrowthOrder.Proofs.Construct.Brackets
import GrowthOrder.Proofs.Draft.Placement
import GrowthOrder.Proofs.Draft.Run
import GrowthOrder.Proofs.Program.Syntax

/-!
# Reading programs with matched braces

Tokens pass from one spine to another if reading them turns every draft that has the first spine
into one that has the second and goes on with whatever follows. At both ends no do-loop waits for
its condition. Passing composes, so a program is read statement by statement, and every block leaves
the spine in which it was opened.
-/
namespace GrowthOrder

/-- Behind a token the draft has the spine, and no do-loop waits for its condition. -/
structure Draft.Stands (x : Draft) (previous : Option Token) (s : Spine) : Prop where
  follows : x.Follows s
  settled : x.pendingDo? (previous.any (·.is "\x7d")) = none

/-- Reading the tokens leads from one spine to the other. -/
def Passes (d : Dialect) (s : Spine) (ts : List Token) (s' : Spine) : Prop :=
  ∀ x previous rest, Draft.Stands x previous s → ∃ y previous', Draft.Stands y previous' s' ∧
    x.readFrom d previous (ts ++ rest) = y.readFrom d previous' rest

namespace Draft

variable {d : Dialect} {x y : Draft} {previous : Option Token} {s : Spine} {c : Construct}
  {t : Token} {rest : List Token}

/-- A construct is read and added, and reading goes on behind it. -/
theorem readFrom_cons (ts : List Token)
    (hread : Construct.read d previous t (ts ++ rest) = (c, ts.length))
    (hadd : x.add c = .ok y) :
    x.readFrom d previous (t :: (ts ++ rest)) = y.readFrom d (t :: ts).getLast? rest := by
  rw [readFrom, Construct.list, hread]
  dsimp only
  rw [List.foldlM_cons, hadd, List.take_left, List.drop_left]
  rfl

theorem add_of_nodes? {F : Forest} (h : c.nodes? x.enclosing? = some F) :
    x.add c = .ok (x.graft F) := by
  cases c with
  | forLoop label header => cases header <;> first | cases h; rfl | cases h
  | scope | close | whileLoop => cases h
  | _ => cases h; rfl

end Draft

namespace Passes

variable {d : Dialect} {s s' s'' : Spine} {ts us : List Token} {t : Token}

theorem refl (d : Dialect) (s : Spine) : Passes d s [] s :=
  fun x previous _ h => ⟨x, previous, h, rfl⟩

theorem trans (h : Passes d s ts s') (h' : Passes d s' us s'') : Passes d s (ts ++ us) s'' := by
  intro x previous rest hx
  obtain ⟨y, previous', hy, hxy⟩ := h x previous (us ++ rest) hx
  obtain ⟨z, previous'', hz, hyz⟩ := h' y previous' rest hy
  exact ⟨z, previous'', hz, by rw [List.append_assoc, hxy, hyz]⟩

/-- A construct, which may depend on the token before and on what is read after it, and then the
rest. -/
theorem step (ts us : List Token) {c : Option Token → Construct}
    (hread : ∀ previous rest,
      Construct.read d previous t (ts ++ (us ++ rest)) = (c previous, ts.length))
    (hadd : ∀ x previous, Draft.Stands x previous s →
      ∃ y, x.add (c previous) = .ok y ∧ y.Stands (t :: ts).getLast? s')
    (h : Passes d s' us s'') : Passes d s (t :: (ts ++ us)) s'' := by
  intro x previous rest hx
  obtain ⟨y, hxy, hy⟩ := hadd x previous hx
  obtain ⟨z, previous', hz, hyz⟩ := h y _ rest hy
  refine ⟨z, previous', hz, ?_⟩
  rw [List.cons_append, List.append_assoc, Draft.readFrom_cons ts (hread previous rest) hxy, hyz]

/-- A construct that puts nodes into the innermost scope. -/
theorem nodes (ts us : List Token) {c : Construct} {F : Forest}
    (hread : ∀ previous rest, Construct.read d previous t (ts ++ (us ++ rest)) = (c, ts.length))
    (hc : c.nodes? s.enclosing? = some F)
    (hlast : (t :: ts).getLast?.any (·.is "\x7d") = false)
    (h : Passes d (s.add F) us s'') : Passes d s (t :: (ts ++ us)) s'' := by
  refine step ts us hread (fun x previous hx => ⟨x.graft F, ?_, ?_⟩) h
  · exact Draft.add_of_nodes? (hx.follows.enclosing?_eq ▸ hc)
  · exact ⟨hx.follows.graft F, by rw [hlast]; rfl⟩

end Passes

/-! ## Tokens that are nodes of their own -/

namespace Token

/-- An operator, a literal or a symbol other than the closing brace. -/
def Mute (t : Token) : Prop :=
  (t.kind = .operator ∨ t.kind = .literal ∨ t.kind = .separator) ∧ t.text ≠ "\x7d"

/-- A word, or a mute token that opens neither arguments nor a dimension. -/
def Quiet (t : Token) : Prop :=
  (t.kind = .identifier ∨ t.Mute) ∧ t.text ∉ ["(", "[", "\x7d"]

theorem is_eq_false {t : Token} {text : String} (h : t.text ≠ text) : t.is text = false :=
  beq_false_of_ne h

variable {d : Dialect} {previous : Option Token} {t : Token} {rest : List Token}

theorem Mute.read (h : t.Mute) : Construct.read d previous t rest =
    (.leaf .expression t.text, 0) := by
  obtain ⟨hk, hb⟩ := h
  have hi : t.isIdentifier = false := by
    rcases hk with hk | hk | hk <;> rw [isIdentifier, hk] <;> rfl
  have hplain : Construct.plain d previous t rest = (.leaf .expression t.text, 0) := by
    simp [Construct.plain, is_eq_false hb, hi]
  rw [← hplain, Construct.read]
  rcases hk with hk | hk | hk <;> rw [hk]

theorem read_identifier (hk : t.kind = .identifier) (hb : t.text ≠ "\x7d")
    (hp : nextIs rest "(" = false) (hs : nextIs rest "[" = false) :
    Construct.read d previous t rest = (.leaf .expression t.text, 0) := by
  have hplain : Construct.plain d previous t rest = (.leaf .expression t.text, 0) := by
    simp [Construct.plain, is_eq_false hb, hp, Subscript.endsStatement_of_not_bracket hs]
  rw [← hplain, Construct.read, hk]

theorem Quiet.ne_brace (h : t.Quiet) : t.text ≠ "\x7d" :=
  fun he => h.2 (by rw [he]; decide)

theorem Quiet.nextIs_eq_false (h : t.Quiet) :
    nextIs (t :: rest) "(" = false ∧ nextIs (t :: rest) "[" = false := by
  obtain ⟨-, hn⟩ := h
  simp only [List.mem_cons, not_or] at hn
  exact ⟨is_eq_false hn.1, is_eq_false hn.2.1⟩

end Token

namespace Passes

variable {d : Dialect} {s s' : Spine} {ts us : List Token} {t : Token}

theorem mute (ht : t.Mute) : Passes d s [t] (s.add (.leaf .expression t.text)) :=
  nodes [] [] (fun _ _ => ht.read) rfl (Token.is_eq_false ht.2) (refl d _)

/-- Quiet tokens, the last of them no word. -/
theorem words (hts : ∀ w ∈ ts, w.Quiet) (hq : t.Quiet) (hm : t.Mute) :
    Passes d s (ts ++ [t]) (s.add (.expressions ((ts ++ [t]).map (·.text)))) := by
  induction ts generalizing s with
  | nil => exact mute hm
  | cons w ws ih =>
    have hw := hts w List.mem_cons_self
    have hrest := ih (s := s.add (.leaf .expression w.text)) fun v hv =>
      hts v (List.mem_cons_of_mem _ hv)
    rw [Spine.add_add] at hrest
    have hnot := hw.ne_brace
    refine nodes (c := .leaf .expression w.text) [] (ws ++ [t]) (fun previous rest => ?_)
      rfl (Token.is_eq_false hnot) hrest
    rcases hw.1 with hk | hmute
    · -- what follows a word is one of the words or the last token
      have hnext : nextIs (ws ++ [t] ++ rest) "(" = false ∧
          nextIs (ws ++ [t] ++ rest) "[" = false := by
        cases ws with
        | nil => exact hq.nextIs_eq_false
        | cons v vs => exact (hts v (by simp)).nextIs_eq_false
      exact Token.read_identifier hk hnot hnext.1 hnext.2
    · exact hmute.read

end Passes

namespace Program

variable {g : Grammar} {text : String}

theorem mute_mark (h : text ≠ "\x7d") : (mark text).Mute :=
  ⟨.inr (.inr rfl), h⟩

theorem quiet_mark (h : text ∉ ["(", "[", "\x7d"]) : (mark text).Quiet :=
  ⟨.inr (mute_mark fun he => h (by rw [he]; decide)), h⟩

theorem quiet_of_isSimple {t : Token} (h : t.IsSimple g) : t.Quiet := by
  rcases h with ⟨hs, hk⟩ | rfl | rfl
  · have hg := hs.not_mem_grouping hk
    have hsub : ∀ text ∈ ["(", "[", "\x7d"], text ∈ Token.grouping := by decide
    have hno : t.text ∉ ["(", "[", "\x7d"] := mt (hsub t.text) hg
    refine ⟨?_, hno⟩
    have hb : t.text ≠ "\x7d" := fun he => hno (by rw [he]; decide)
    rcases hk with hk | hk | hk
    · exact .inl hk
    · exact .inr ⟨.inr (.inl hk), hb⟩
    · exact .inr ⟨.inl hk, hb⟩
  · exact quiet_mark (by decide)
  · exact quiet_mark (by decide)

end Program

namespace Passes

open Program (mark key mute_mark quiet_mark quiet_of_isSimple)

variable {d : Dialect} {s s' : Spine} {us : List Token}

/-- A simple sequence and the symbols that end it. -/
theorem phrase (phrase : Phrase d.grammar) (marks : List String) (last : String)
    (h : ∀ text ∈ marks ++ [last], text ∉ ["(", "[", "\x7d"]) :
    Passes d s (phrase.tokens ++ (marks ++ [last]).map mark)
      (s.add (.expressions (phrase.texts ++ (marks ++ [last])))) := by
  have hlast := h last (by simp)
  have hquiet : ∀ w ∈ phrase.tokens ++ marks.map mark, w.Quiet := by
    intro w hw
    rcases List.mem_append.1 hw with hw | hw
    · exact quiet_of_isSimple (phrase.simple w hw)
    · obtain ⟨text, htext, rfl⟩ := List.mem_map.1 hw
      exact quiet_mark (h text (by simp [htext]))
  have hwords := words (d := d) (s := s) hquiet (quiet_mark hlast)
    (mute_mark (quiet_mark hlast).ne_brace)
  have htexts : (phrase.tokens ++ marks.map mark ++ [mark last]).map (·.text) =
      phrase.texts ++ (marks ++ [last]) := by
    simp [Phrase.texts, mark, Function.comp_def]
  rw [htexts, List.append_assoc] at hwords
  rwa [List.map_append]

end Passes

/-! ## Scopes -/

namespace Draft

variable {x : Draft} {o : Spine} {k : NodeKind} {l : Option String} {b : Forest}

/-- A closing brace closes the innermost scope and remembers it. -/
theorem Follows.exists_close (h : x.Follows (.scope o k l b)) :
    ∃ y, x.add .close = .ok y ∧
      y.Follows (o.add (.cons k l (b ++ .expressions ["\x7d"]) .nil)) ∧
      y.lastClosed = some o.builder.tree.size ∧
      (y.builder.tree.kind o.builder.tree.size).bare = k.bare := by
  obtain ⟨y, hadd, hb, hl⟩ := add_close x
  have hy : y.Follows (o.add (.cons k l (b ++ .expressions ["\x7d"]) .nil)) :=
    (h.graft (.leaf .expression "\x7d")).close hb
  refine ⟨y, hadd, hy, ?_, ?_⟩
  · rw [hl, h.scopes_eq, Spine.builder_scope]
    rfl
  · rw [hy.kind_alike, Spine.kind_builder_closed]

theorem pendingDo?_eq_some {id : Nat} {header : LoopHeader} (hl : x.lastClosed = some id)
    (hk : x.builder.tree.kind id = .loop .doWhile header) : x.pendingDo? true = some id := by
  simp [pendingDo?, hl, hk]

end Draft

namespace Program

variable {d : Dialect} {previous : Option Token} {rest : List Token} {text : String}

theorem read_key {a : KeywordAction} (h : d.grammar.action? text = some a) :
    Construct.read d previous (key text) rest =
      Construct.keyword d.grammar previous text rest a := by
  rw [Construct.read, key]
  dsimp only
  rw [h]

theorem action_if (g : Grammar) : g.action? "if" = some .conditional := by
  cases g <;> rfl

theorem action_else (g : Grammar) : g.action? "else" = some .conditional := by
  cases g <;> rfl

theorem action_do (g : Grammar) : g.action? "do" = some .doLoop := by
  cases g <;> rfl

theorem read_brace : Construct.read d previous (mark "\x7d") rest = (.close, 0) := rfl

end Program

namespace Passes

open Program (mark key mute_mark read_key read_brace conditionHeader opening action_if action_else
  action_do)

variable {d : Dialect} {s s' o : Spine} {t : Token} {k : NodeKind} {l : String} {F : Forest}

/-- A construct that opens a scope where no do-loop waits. -/
theorem enter (ts us : List Token) {c : Option Token → Construct}
    (hread : ∀ previous rest,
      Construct.read d previous t (ts ++ (us ++ rest)) = (c previous, ts.length))
    (hadd : ∀ (x : Draft) previous, x.pendingDo? (previous.any (·.is "\x7d")) = none →
      x.add (c previous) = .ok (x.enter k l))
    (hlast : (t :: ts).getLast?.any (·.is "\x7d") = false)
    (h : Passes d (.scope s k (some l) .nil) us s') : Passes d s (t :: (ts ++ us)) s' := by
  refine step ts us hread (fun x previous hx => ⟨_, hadd x previous hx.settled, ?_⟩) h
  exact ⟨hx.follows.enter k l, by rw [hlast]; rfl⟩

/-- The keyword of a conditional or a do-loop. -/
theorem keyword {action : KeywordAction} (h : d.grammar.action? l = some action)
    (hl : l ≠ "\x7d")
    (hread : ∀ previous rest,
      Construct.keyword d.grammar previous l rest action = (.scope k l, 0)) :
    Passes d s [key l] (.scope s k (some l) .nil) :=
  enter (c := fun _ => .scope k l) [] [] (fun _ _ => (read_key h).trans (hread _ _))
    (fun _ _ _ => rfl) (Token.is_eq_false hl) (refl d _)

/-- The first keyword of a conditional and the parenthesis. -/
theorem ifOpening :
    Passes d s [key "if", mark "("] (.scope s .conditional (some "if") (.expressions ["("])) :=
  (keyword (action_if d.grammar) (by decide) fun _ _ => rfl).trans
    (mute (t := mark "(") (mute_mark (by decide)))

/-- The second keyword of a conditional and the brace. -/
theorem elseOpening :
    Passes d s [key "else", mark "\x7b"]
      (.scope s .conditional (some "else") (.expressions ["\x7b"])) :=
  (keyword (action_else d.grammar) (by decide) fun _ _ => rfl).trans
    (mute (t := mark "\x7b") (mute_mark (by decide)))

/-- The keyword of a loop by its condition, and the parenthesis. -/
theorem whileOpening : Passes d s [key "while", mark "("]
    (.scope s (.loop .whileLoop (conditionHeader d.grammar)) (some "while")
      (.expressions (opening d.grammar))) := by
  obtain ⟨g, intrinsics⟩ := d
  cases g with
  | cLike =>
    refine enter (c := fun previous => .whileLoop "while" (previous.any (·.is "\x7d")) (.token "("))
      [mark "("] [] (fun _ _ => (read_key (a := .whileLoop) rfl).trans rfl)
      (fun x previous h => ?_) rfl (refl _ _)
    rw [Draft.add, h]
    rfl
  | javaLike =>
    refine enter (c := fun previous => .whileLoop "while" (previous.any (·.is "\x7d")) .unread)
      [] [mark "("] (fun _ _ => (read_key (a := .whileLoop) rfl).trans rfl)
      (fun x previous h => ?_) rfl (mute (mute_mark (by decide)))
    rw [Draft.add, h]
    rfl

/-- The brace that closes a scope other than a do-loop. -/
theorem close (hk : ∀ header, k ≠ .loop .doWhile header) :
    Passes d (.scope s k (some l) F) [mark "\x7d"]
      (s.add (.cons k (some l) (F ++ .expressions ["\x7d"]) .nil)) := by
  refine step (c := fun _ => .close) [] [] (fun _ _ => read_brace) (fun x previous hx => ?_)
    (refl d _)
  obtain ⟨y, hadd, hy, hl, hkind⟩ := hx.follows.exists_close
  refine ⟨y, hadd, hy, ?_⟩
  cases hp : y.pendingDo? true with
  | none => exact hp
  | some id =>
    obtain ⟨-, hid, header, hdo⟩ := Draft.kind_of_pendingDo? hp
    obtain rfl := Option.some.inj (hl.symm.trans hid)
    rw [hdo] at hkind
    rcases NodeKind.bare_cases k with hb | ⟨header', hb⟩
    · exact absurd (hb.symm.trans hkind.symm) (hk _)
    · exact absurd hb (hk _)

/-- The brace behind the body of a do-loop, the keyword of its condition and the parenthesis. -/
theorem trailer {header : LoopHeader} :
    Passes d (.scope s (.loop .doWhile header) (some l) F) [mark "\x7d", key "while", mark "("]
      ((s.add (.cons (.loop .doWhile header) (some l) (F ++ .expressions ["\x7d"]) .nil)).add
        (.expressions (opening d.grammar))) := by
  intro x previous rest hx
  obtain ⟨y, hadd, hy, hl, hkind⟩ := hx.follows.exists_close
  obtain ⟨header', hdo⟩ : ∃ header', y.builder.tree.kind s.builder.tree.size =
      .loop .doWhile header' := by
    rcases NodeKind.bare_cases (y.builder.tree.kind s.builder.tree.size) with hb | ⟨header', hb⟩
    · exact ⟨{}, hb.symm.trans hkind⟩
    · exact ⟨header', hb⟩
  have hpending := Draft.pendingDo?_eq_some hl hdo
  -- whatever the condition is, the draft has the same spine and no do-loop waits
  have htrailer : ∀ condition z, y.addTrailer s.builder.tree.size condition = .ok z →
      y.add (.whileLoop "while" true condition) = .ok z ∧ ∀ previous, z.Stands previous
        (s.add (.cons (.loop .doWhile header) (some l) (F ++ .expressions ["\x7d"]) .nil)) := by
    intro condition z hz
    obtain ⟨hbare, hnone⟩ := Draft.bare_addTrailer hdo hz
    refine ⟨by rw [Draft.add, hpending]; exact hz, fun previous => ⟨hbare.trans hy, ?_⟩⟩
    rw [Draft.pendingDo?, hnone]
    split <;> rfl
  have hbrace : x.readFrom d previous ([mark "\x7d", key "while", mark "("] ++ rest) =
      y.readFrom d (some (mark "\x7d")) (key "while" :: mark "(" :: rest) :=
    Draft.readFrom_cons [] read_brace hadd
  rw [hbrace]
  obtain ⟨g, intrinsics⟩ := d
  cases g with
  | cLike =>
    obtain ⟨hz, hstands⟩ := htrailer (.token "(") _ rfl
    refine ⟨_, some (mark "("), ?_, Draft.readFrom_cons [mark "("]
      ((read_key (a := .whileLoop) rfl).trans rfl) hz⟩
    change Draft.Stands _ _ (Spine.add _ .nil)
    rw [Spine.add_nil]
    exact hstands _
  | javaLike =>
    obtain ⟨hz, hstands⟩ := htrailer .unread _ rfl
    obtain ⟨w, previous', hw, hread⟩ :=
      mute (t := mark "(") (mute_mark (by decide)) _ (some (key "while")) rest (hstands _)
    refine ⟨w, previous', hw, ?_⟩
    rw [← hread]
    exact Draft.readFrom_cons [] ((read_key (a := .whileLoop) rfl).trans rfl) hz

end Passes

/-! ## Declarations -/

namespace Program

variable {d : Dialect} {g : Grammar} {previous : Option Token} {rest : List Token}

theorem name_ne (name : VariableName g) {text : String}
    (h : ¬ text.toList.head?.any Scan.isWordStart) : name.text ≠ text :=
  name.scanned.ne_of_identifier rfl h

theorem type_ne_brace (type : TypeWord g) : type.text ≠ "\x7d" := by
  intro he
  have hd := type.declares
  rw [he] at hd
  revert hd
  cases g <;> decide

/-- A type and a name lead to the declarator behind the name. -/
theorem read_type (type : TypeWord d.grammar) (name : VariableName d.grammar) :
    Construct.read d previous (key type.text) (⟨.identifier, name.text⟩ :: rest) =
      Construct.declarator type.text (⟨.identifier, name.text⟩ :: rest) := by
  have hstar : (Token.mk .identifier name.text).is "*" = false :=
    Token.is_eq_false (name_ne name (by decide))
  rw [read_key type.declares]
  simp [Construct.keyword, Construct.declaration, hstar]

theorem read_declaration (type : TypeWord d.grammar) (name : VariableName d.grammar)
    (hp : nextIs rest "(" = false) (hs : nextIs rest "[" = false) :
    Construct.read d previous (key type.text) (⟨.identifier, name.text⟩ :: rest) =
      (.leaf (.typeDeclaration { typeName := type.text, name := some name.text }) type.text,
        1) := by
  have hb : (Token.mk .identifier name.text).is "[" = false :=
    Token.is_eq_false (name_ne name (by decide))
  rw [read_type]
  simp [Construct.declarator, Token.isIdentifier, hp, hs, hb]

theorem read_arrayDeclaration (type : TypeWord d.grammar) (name : VariableName d.grammar)
    (hs : nextIs rest "[" = true) :
    Construct.read d previous (key type.text) (⟨.identifier, name.text⟩ :: rest) =
      (.typedArray type.text (some name.text) (Subscript.dimensions rest).1,
        (Subscript.dimensions rest).2 + 1) := by
  have hp : nextIs rest "(" = false := nextIs_eq_false_of_nextIs hs (by decide)
  rw [read_type]
  simp [Construct.declarator, Token.isIdentifier, hp, hs]

theorem ne_bracket_of_isSimple {t : Token} (h : t.IsSimple g) : t.text ≠ "]" := by
  rcases h with ⟨hs, hk⟩ | rfl | rfl
  · exact fun he => hs.not_mem_grouping hk (by rw [he]; decide)
  · decide
  · decide

/-- A dimension in its brackets. -/
def bracketed (size : Phrase g) : BracketGroup where
  opening := mark "["
  inside := size.tokens
  closing := mark "]"
  opening_is := rfl
  inside_is := fun t ht => Token.is_eq_false (ne_bracket_of_isSimple (size.simple t ht))
  closing_is := rfl

/-- The dimensions between brackets are read one by one. -/
theorem dimensions_brackets (sizes : List (Phrase g)) (h : nextIs rest "[" = false) :
    Subscript.dimensions (brackets sizes ++ rest) =
      (dimensionsOf sizes, (brackets sizes).length) := by
  have hbrackets : brackets sizes = (sizes.map bracketed).flatMap BracketGroup.tokens := by
    rw [List.flatMap_map]
    rfl
  have hsizes : dimensionsOf sizes = (sizes.map bracketed).map BracketGroup.dimension := by
    rw [List.map_map]
    rfl
  rw [hbrackets, Subscript.dimensions_groups _ h, hsizes]

theorem getLast?_any_eq_false {ts : List Token} (h : ∀ t ∈ ts, t.text ≠ "\x7d") :
    ts.getLast?.any (·.is "\x7d") = false := by
  cases hl : ts.getLast? with
  | none => rfl
  | some t => exact Token.is_eq_false (h t (List.mem_of_getLast? hl))

theorem ne_brace_of_mem_brackets {sizes : List (Phrase g)} {t : Token} (h : t ∈ brackets sizes) :
    t.text ≠ "\x7d" := by
  obtain ⟨size, -, ht⟩ := List.mem_flatMap.1 h
  rcases List.mem_cons.1 ht with rfl | ht
  · decide
  · rcases List.mem_append.1 ht with ht | ht
    · exact (quiet_of_isSimple (size.simple t ht)).ne_brace
    · obtain rfl := List.mem_singleton.1 ht
      decide

end Program

namespace Passes

open Program

variable {d : Dialect} {s s' : Spine} {us : List Token} {t : Token}

theorem declare (type : TypeWord d.grammar) (name : VariableName d.grammar) (ht : t.Quiet)
    (h : Passes d (s.add (declaration type name)) (t :: us) s') :
    Passes d s (key type.text :: ⟨.identifier, name.text⟩ :: t :: us) s' := by
  refine nodes (c := .leaf (.typeDeclaration { typeName := type.text, name := some name.text })
    type.text) [⟨.identifier, name.text⟩] (t :: us) (fun previous rest => ?_) rfl ?_ h
  · exact read_declaration type name ht.nextIs_eq_false.1 ht.nextIs_eq_false.2
  · exact Token.is_eq_false (name_ne name (by decide))

theorem array (type : TypeWord d.grammar) (name : VariableName d.grammar)
    (first : Phrase d.grammar) (more : List (Phrase d.grammar)) :
    Passes d s (key type.text :: ⟨.identifier, name.text⟩ ::
        (brackets (first :: more) ++ [mark ";"]))
      ((s.add (arrayDeclaration type name (dimensionsOf (first :: more)))).add
        (.expressions [";"])) := by
  refine nodes (c := .typedArray type.text (some name.text) (dimensionsOf (first :: more)))
    (⟨.identifier, name.text⟩ :: brackets (first :: more)) [mark ";"]
    (fun previous rest => ?_) rfl (getLast?_any_eq_false fun t ht => ?_)
    (mute (mute_mark (by decide)))
  · rw [List.cons_append, read_arrayDeclaration type name rfl, dimensions_brackets _ rfl]
    rfl
  · rcases List.mem_cons.1 ht with rfl | ht
    · exact type_ne_brace type
    · rcases List.mem_cons.1 ht with rfl | ht
      · exact name_ne name (by decide)
      · exact ne_brace_of_mem_brackets ht

/-- The keyword of a counting loop and its parentheses: three tokens are its header. -/
theorem forOpening (hg : d.grammar = .cLike) (i c u : Phrase d.grammar) :
    Passes d s (key "for" :: mark "(" :: clauses i c u)
      (.scope s (.loop .forLoop (positionalHeader (clauses i c u))) (some "for")
        (.expressions (((clauses i c u).drop 2).map (·.text)))) := by
  have hquiet : ∀ t ∈ i.tokens ++ mark ";" :: (c.tokens ++ mark ";" :: u.tokens), t.Quiet := by
    have hphrase : ∀ (phrase : Phrase d.grammar), ∀ t ∈ phrase.tokens, t.Quiet :=
      fun phrase t ht => quiet_of_isSimple (phrase.simple t ht)
    have hmark : (mark ";").Quiet := quiet_mark (by decide)
    simp only [List.forall_mem_append, List.forall_mem_cons]
    exact ⟨hphrase i, hmark, hphrase c, hmark, hphrase u⟩
  have hclauses : clauses i c u =
      (i.tokens ++ mark ";" :: (c.tokens ++ mark ";" :: u.tokens)) ++ [mark ")"] := by
    simp [clauses]
  rw [hclauses]
  -- there are two semicolons, so the header ends before the parenthesis
  obtain ⟨a, b, rest, hrest⟩ : ∃ a b rest,
      i.tokens ++ mark ";" :: (c.tokens ++ mark ";" :: u.tokens) = a :: b :: rest := by
    rcases i.tokens with _ | ⟨a, _ | ⟨b, l⟩⟩
    · rcases c.tokens with _ | ⟨b, l⟩
      · exact ⟨_, _, _, rfl⟩
      · exact ⟨_, _, _, rfl⟩
    · exact ⟨_, _, _, rfl⟩
    · exact ⟨_, _, _, rfl⟩
  rw [hrest] at hquiet ⊢
  have hquiet' : ∀ t ∈ rest, t.Quiet := fun t ht =>
    hquiet t (List.mem_cons_of_mem _ (List.mem_cons_of_mem _ ht))
  have hwords := words (d := d) (t := mark ")")
    (s := .scope s (.loop .forLoop (positionalHeader (a :: b :: rest ++ [mark ")"]))) (some "for")
      .nil) hquiet' (quiet_mark (by decide)) (mute_mark (by decide))
  refine enter (c := fun _ => .forLoop "for" (.positional "(" a.text b.text))
    [mark "(", a, b] (rest ++ [mark ")"]) (fun previous rest' => ?_) (fun x previous _ => rfl) ?_
    hwords
  · rw [read_key (a := .forLoop) (by rw [hg]; rfl), hg]
    rfl
  · exact Token.is_eq_false (t := b) (hquiet b (by simp)).ne_brace

end Passes

/-! ## Statements with blocks -/

/-- Inside the function of the spine, the tokens put the forest into any scope. -/
def Fills (d : Dialect) (s : Spine) (ts : List Token) (F : Forest) : Prop :=
  ∀ o : Spine, o.enclosing? = s.enclosing? → Passes d o ts (o.add F)

theorem Spine.enclosing?_add (s : Spine) (F : Forest) : (s.add F).enclosing? = s.enclosing? := by
  rw [enclosing?, kinds_add, enclosing?]

theorem Spine.enclosing?_scope (s : Spine) {k : NodeKind} (hk : k.isFunction = false)
    (l : Option String) (F : Forest) : (scope s k l F).enclosing? = s.enclosing? := by
  have hnot : ¬ k.isFunction := Bool.eq_false_iff.1 hk
  rw [enclosing?, enclosing?, kinds, NodeKind.enclosingName, NodeKind.enclosingName,
    List.find?_cons_of_neg hnot]

namespace Passes

open Program

variable {d : Dialect} {s : Spine} {ts us : List Token} {body : Forest} {k : NodeKind} {l : String}
  {before : List String}

/-- A body and the brace behind it. -/
theorem block (hdo : ∀ header, k ≠ .loop .doWhile header) (hk : k.isFunction = false)
    (h : Fills d s ts body) :
    Passes d (.scope s k (some l) (.expressions before)) (ts ++ [mark "\x7d"])
      (s.add (Program.block k l before body)) := by
  have hclose := (h _ (s.enclosing?_scope hk (some l) (.expressions before))).trans
    (close (d := d) hdo)
  rwa [Forest.append_assoc] at hclose

/-- A statement with a condition and a block, once its keyword and parenthesis are read. -/
theorem conditioned (condition : Phrase d.grammar)
    (hopen : Passes d s us (.scope s k (some l) (.expressions before)))
    (hdo : ∀ header, k ≠ .loop .doWhile header) (hk : k.isFunction = false)
    (h : Fills d s ts body) :
    Passes d s (us ++ (condition.tokens ++ ([mark ")", mark "\x7b"] ++ (ts ++ [mark "\x7d"]))))
      (s.add (Program.block k l (before ++ (condition.texts ++ [")", "\x7b"])) body)) := by
  have hcond := phrase (d := d) (s := .scope s k (some l) (.expressions before)) condition [")"]
    "\x7b" (by decide)
  rw [Spine.add, ← Forest.expressions_append] at hcond
  have hall := hopen.trans (hcond.trans (block hdo hk h))
  rwa [List.append_assoc] at hall

theorem whileBlock (condition : Phrase d.grammar) (h : Fills d s ts body) :
    Passes d s (key "while" :: mark "(" :: (condition.tokens ++ mark ")" :: mark "\x7b" ::
        (ts ++ [mark "\x7d"])))
      (s.add (Program.block (.loop .whileLoop (conditionHeader d.grammar)) "while"
        (opening d.grammar ++ (condition.texts ++ [")", "\x7b"])) body)) :=
  conditioned condition (whileOpening (s := s)) (by simp) rfl h

theorem doBlock (condition : Phrase d.grammar) (h : Fills d s ts body) :
    Passes d s (key "do" :: mark "\x7b" :: (ts ++ mark "\x7d" :: key "while" :: mark "(" ::
        (condition.tokens ++ [mark ")", mark ";"])))
      (s.add (Program.block (.loop .doWhile {}) "do" ["\x7b"] body ++
        .expressions (opening d.grammar ++ (condition.texts ++ [")", ";"])))) := by
  have hopen : Passes d s [key "do"] (.scope s (.loop .doWhile {}) (some "do") .nil) :=
    keyword (action_do d.grammar) (by decide) fun _ _ => rfl
  have hbody := (mute (d := d) (s := .scope s (.loop .doWhile {}) (some "do") .nil)
    (t := mark "\x7b") (mute_mark (by decide))).trans (h _ (s.enclosing?_scope rfl _ _))
  have hall := hopen.trans (hbody.trans (trailer.trans (phrase condition [")"] ";" (by decide))))
  simp only [Spine.add_add, Forest.append_assoc] at hall
  rw [Forest.expressions_append]
  exact hall

theorem forBlock (hg : d.grammar = .cLike) (i c u : Phrase d.grammar) (h : Fills d s ts body) :
    Passes d s (key "for" :: mark "(" :: (clauses i c u ++ mark "\x7b" :: (ts ++ [mark "\x7d"])))
      (s.add (Program.block (.loop .forLoop (positionalHeader (clauses i c u))) "for"
        (((clauses i c u).drop 2).map (·.text) ++ ["\x7b"]) body)) := by
  have hopen : Passes d s (key "for" :: mark "(" :: (clauses i c u ++ [mark "\x7b"]))
      (.scope s (.loop .forLoop (positionalHeader (clauses i c u))) (some "for")
        (.expressions (((clauses i c u).drop 2).map (·.text) ++ ["\x7b"]))) := by
    rw [Forest.expressions_append]
    exact (forOpening hg i c u).trans (mute (mute_mark (by decide)))
  have hall := hopen.trans (block (by simp) rfl h)
  simp only [List.append_assoc, List.cons_append] at hall
  exact hall

theorem ifBlock (condition : Phrase d.grammar) (h : Fills d s ts body) :
    Passes d s (key "if" :: mark "(" :: (condition.tokens ++ mark ")" :: mark "\x7b" ::
        (ts ++ [mark "\x7d"])))
      (s.add (Program.block .conditional "if" ("(" :: (condition.texts ++ [")", "\x7b"])) body)) :=
  conditioned condition (ifOpening (s := s)) (by simp) rfl h

theorem elseBlock (h : Fills d s ts body) :
    Passes d s (key "else" :: mark "\x7b" :: (ts ++ [mark "\x7d"]))
      (s.add (Program.block .conditional "else" ["\x7b"] body)) :=
  elseOpening.trans (block (by simp) rfl h)

/-- Every program passes and adds its nodes. -/
theorem program (p : Program d.grammar) (s : Spine) : Passes d s p.tokens (s.add p.forest) := by
  induction p generalizing s with
  | nil =>
    rw [Program.forest, Spine.add_nil]
    exact refl d s
  | simple phrase rest ih =>
    have h := (Passes.phrase (s := s) phrase [] ";" (by decide)).trans (ih _)
    rw [Spine.add_add, List.append_assoc] at h
    exact h
  | declare type name rest ih =>
    have h := (mute (d := d) (s := s.add (declaration type name)) (t := mark ";")
      (mute_mark (by decide))).trans (ih _)
    rw [Spine.add_add, Spine.add_add] at h
    exact declare type name (quiet_mark (by decide)) h
  | assign type name value rest ih =>
    have h := (mute (d := d) (s := s.add (declaration type name)) (t := ⟨.operator, "="⟩)
      ⟨.inl rfl, by decide⟩).trans ((phrase value [] ";" (by decide)).trans (ih _))
    simp only [Spine.add_add, Forest.append_assoc, List.append_assoc] at h
    exact declare type name ⟨.inr ⟨.inl rfl, by decide⟩, by decide⟩ h
  | array type name first more rest ih =>
    have h := (array (s := s) type name first more).trans (ih _)
    rw [Spine.add_add, Spine.add_add, List.cons_append, List.cons_append, List.append_assoc] at h
    exact h
  | whileLoop condition body rest ihb ihr =>
    have h := (whileBlock (s := s) condition fun o _ => ihb o).trans (ihr _)
    simp only [Spine.add_add, List.append_assoc, List.cons_append] at h
    exact h
  | doLoop body condition rest ihb ihr =>
    have h := (doBlock (s := s) condition fun o _ => ihb o).trans (ihr _)
    simp only [Spine.add_add, Forest.append_assoc, List.append_assoc, List.cons_append] at h
    exact h
  | forLoop hg i c u body rest ihb ihr =>
    have h := (forBlock (s := s) hg i c u fun o _ => ihb o).trans (ihr _)
    simp only [Spine.add_add, List.append_assoc, List.cons_append] at h
    exact h
  | branch condition body rest ihb ihr =>
    have h := (ifBlock (s := s) condition fun o _ => ihb o).trans (ihr _)
    simp only [Spine.add_add, List.append_assoc, List.cons_append] at h
    exact h
  | branchElse condition body other rest ihb iho ihr =>
    have h := (ifBlock (s := s) condition fun o _ => ihb o).trans
      ((elseBlock fun o _ => iho o).trans (ihr _))
    simp only [Spine.add_add, Forest.append_assoc, List.append_assoc, List.cons_append] at h
    exact h

/-- Reading all tokens from the start gives the tree of the spine that is reached. -/
theorem exists_tree (h : Passes d (.root .nil) ts s) :
    ∃ t, SyntaxTree.ofTokens d ts = .ok t ∧ t.bare = s.builder.finish.bare := by
  have hstart : Draft.start.Stands none (.root .nil) := ⟨rfl, rfl⟩
  obtain ⟨y, previous, hy, hread⟩ := h Draft.start none [] hstart
  have hnil : Construct.list d previous [] = [] := by rw [Construct.list]
  rw [List.append_nil, Draft.readFrom, Draft.readFrom, hnil] at hread
  refine ⟨y.builder.finish, ?_, congrArg Builder.finish hy.follows⟩
  rw [SyntaxTree.ofTokens, SyntaxTree.ofConstructs, hread]
  rfl

end Passes

end GrowthOrder
