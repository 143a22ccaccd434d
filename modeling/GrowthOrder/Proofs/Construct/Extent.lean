import GrowthOrder.Proofs.Construct.Brackets

/-!
# How far a construct reaches

A construct takes the token it begins with and some tokens after it. A loop begins with its keyword
and takes its header; a closing brace stands alone. Every other construct stops behind a token that
is no closing brace, unless it takes all that is left. So a brace right before the next construct is
one that was read as a brace, or a token of a positional header.
-/
namespace GrowthOrder

/-- Only as a separator is a brace a brace: a name or an unknown token is none, whatever its
text. -/
def Token.NoBrace (t : Token) : Prop :=
  t.is "\x7d" → t.kind ≠ .separator

namespace Token

variable {t : Token}

theorem noBrace_of_is {text : String} (h : t.is text) (hne : text ≠ "\x7d") : t.NoBrace := by
  intro hbrace
  have htext : t.text = text := beq_iff_eq.1 h
  exact absurd (htext.symm.trans (beq_iff_eq.1 hbrace)) hne

theorem noBrace_of_kind {kind : TokenKind} (h : t.kind = kind) (hne : kind ≠ .separator) :
    t.NoBrace :=
  fun _ hkind => hne (h.symm.trans hkind)

theorem noBrace_of_isIdentifier (h : t.isIdentifier) : t.NoBrace :=
  noBrace_of_kind (beq_iff_eq.1 h) (by decide)

end Token

/-- If tokens are left, the last of those that are taken is no closing brace. -/
def EndsClear (ts : List Token) (n : Nat) : Prop :=
  n < ts.length → ∀ t, (ts.take n).getLast? = some t → t.NoBrace

namespace EndsClear

variable {ts : List Token} {t : Token} {k n : Nat}

theorem zero (ts : List Token) : EndsClear ts 0 := by
  intro _ t ht
  cases ht

theorem all (h : ts.length ≤ n) : EndsClear ts n :=
  fun hn => absurd hn (Nat.not_lt.2 h)

/-- After the first `k` tokens come `n` more; the first ones matter only if these are none. -/
theorem add (hn : EndsClear (ts.drop k) n) (hk : n = 0 → EndsClear ts k) :
    EndsClear ts (k + n) := by
  intro hlt t ht
  rw [List.take_add, List.getLast?_append] at ht
  cases hlast : ((ts.drop k).take n).getLast? with
  | none =>
    rw [hlast, Option.none_or] at ht
    have hempty := congrArg List.length (List.getLast?_eq_none_iff.1 hlast)
    rw [List.length_take, List.length_drop, List.length_nil] at hempty
    exact hk (by omega) (by omega) t ht
  | some u =>
    rw [hlast, Option.some_or] at ht
    exact hn (by rw [List.length_drop]; omega) t (hlast.trans ht)

theorem cons_of_pos (h : EndsClear ts n) (hn : 0 < n) : EndsClear (t :: ts) (n + 1) :=
  Nat.add_comm 1 n ▸ add h fun hzero => absurd hzero (Nat.ne_of_gt hn)

theorem cons (ht : t.NoBrace) (h : EndsClear ts n) : EndsClear (t :: ts) (n + 1) := by
  rw [Nat.add_comm]
  refine add h fun _ _ u hu => ?_
  cases hu
  exact ht

theorem of_drop {last : Token} {after : List Token} (hdrop : ts.drop n = last :: after)
    (hlast : last.NoBrace) : EndsClear ts (n + 1) :=
  add (hdrop ▸ cons hlast (zero _)) fun h => absurd h Nat.one_ne_zero

end EndsClear

/-! ## Groups of brackets, arguments and clauses -/

/-- A group ends with its bracket. -/
theorem Subscript.endsClear_group (ts : List Token) :
    EndsClear ts (min ((inside ts).length + 1) ts.length) := by
  rcases inside_cases ts with hall | ⟨last, after, hlast, hsplit⟩
  · rw [hall]
    exact .all (by omega)
  · have hlength := congrArg List.length hsplit
    rw [List.length_append, List.length_cons] at hlength
    rw [Nat.min_eq_left (by omega)]
    have hdrop : ts.drop (inside ts).length = last :: after :=
      calc ts.drop (inside ts).length
          = (inside ts ++ last :: after).drop (inside ts).length := by rw [hsplit]
        _ = last :: after := List.drop_left
    exact .of_drop hdrop (Token.noBrace_of_is hlast (by decide))

/-- Dimensions end with a bracket. -/
theorem Subscript.endsClear_dimensions (ts : List Token) : EndsClear ts (dimensions ts).2 := by
  fun_induction dimensions ts with
  | case1 => exact .zero _
  | case2 t rest ht group taken more n hmore ih =>
    rw [hmore] at ih
    refine .add (by rwa [Nat.add_comm 1, List.drop_succ_cons]) fun _ => ?_
    rw [Nat.add_comm 1]
    exact .cons (Token.noBrace_of_is ht (by decide)) (endsClear_group rest)
  | case3 => exact .zero _

/-- Inside parentheses the arguments go on until the tokens end. -/
theorem Arguments.read_pos {d : Dialect} {depth : Nat} (hdepth : depth ≠ 0) {ts : List Token}
    (hts : ts ≠ []) : 0 < (read d depth ts).2 := by
  cases ts with
  | nil => exact absurd rfl hts
  | cons t rest =>
    rw [read, if_neg (fun h => hdepth h.1), if_neg (fun h => hdepth h.1)]
    dsimp only
    split <;> exact Nat.succ_pos _

theorem Arguments.isIdentifier_of_isCallee {d : Dialect} {t : Token} (h : d.isCallee t) :
    t.isIdentifier :=
  (Bool.and_eq_true_iff.1 (Bool.and_eq_true_iff.1 h).1).1

/-- Arguments end with a token at which they could go on, and so with no brace. -/
theorem Arguments.endsClear_read (d : Dialect) (depth : Nat) (ts : List Token) :
    EndsClear ts (read d depth ts).2 := by
  fun_induction read d depth ts with
  | case1 => exact .zero _
  | case2 => exact .zero _
  | case3 depth t rest _ h => exact .cons (Token.noBrace_of_is h.2 (by decide)) (.zero _)
  | case4 depth t rest hstop hclose inner hcall arguments n harguments more m hmore ih ih' =>
    rw [harguments] at ih
    rw [hmore] at ih'
    cases rest with
    | nil => cases (Bool.and_eq_true_iff.1 hcall).2
    | cons paren rest =>
      obtain ⟨hcallee, hparen⟩ := Bool.and_eq_true_iff.1 hcall
      have hname := Token.noBrace_of_isIdentifier (isIdentifier_of_isCallee hcallee)
      have hopen : EndsClear (t :: paren :: rest) (n + 2) :=
        .cons hname (.cons (Token.noBrace_of_is hparen (by decide)) ih)
      rw [show n + m + 2 = n + 2 + m by omega]
      exact .add ih' fun _ => hopen
  | case5 depth t rest hstop hclose inner hcall more m hmore ih =>
    rw [hmore] at ih
    by_cases hbrace : t.is "\x7d"
    · -- a brace is taken only inside parentheses, and then more is taken after it
      have hdepth : depth ≠ 0 := fun h => hstop ⟨h, .inr (.inr hbrace)⟩
      have htext : t.text = "\x7d" := beq_iff_eq.1 hbrace
      have hinner : inner = depth := by
        simp [inner, Token.is, htext]
      cases rest with
      | nil => exact .all (Nat.le_add_left 1 m)
      | cons u us =>
        have hpos := read_pos (d := d) (hinner ▸ hdepth) (List.cons_ne_nil u us)
        rw [hmore] at hpos
        exact ih.cons_of_pos hpos
    · exact ih.cons fun h => absurd h hbrace

namespace ForHeader

variable {ts : List Token}

/-- A clause takes its texts and the token that ends it. -/
theorem exists_of_clause {depth : Nat} {texts : List String} {last : Bool}
    (h : clause depth ts = some (texts, last)) : ∃ t after, ts.drop texts.length = t :: after ∧
      (t.is ";" ∨ t.is ")") ∧ last = t.is ")" := by
  induction ts generalizing depth texts with
  | nil => cases h
  | cons t rest ih =>
    rw [clause] at h
    split at h
    · next hend =>
      cases h
      exact ⟨t, rest, rfl, hend.2, rfl⟩
    · obtain ⟨⟨texts', last'⟩, hrest, heq⟩ := Option.map_eq_some_iff.1 h
      cases heq
      exact ih hrest

theorem endsClear_clauses? {most n : Nat} {texts : List (List String)}
    (h : clauses? most ts = some (texts, n)) : EndsClear ts n := by
  induction most generalizing ts texts n with
  | zero =>
    cases h
    exact .zero _
  | succ most ih =>
    obtain ⟨⟨clause, last⟩, hclause, hmore⟩ := Option.bind_eq_some_iff.1 h
    obtain ⟨t, after, hdrop, hend, -⟩ := exists_of_clause hclause
    have hlast : t.NoBrace :=
      hend.elim (Token.noBrace_of_is · (by decide)) (Token.noBrace_of_is · (by decide))
    have hfirst : EndsClear ts (clause.length + 1) := .of_drop hdrop hlast
    dsimp only at hmore
    split at hmore
    · cases hmore
      exact hfirst
    · obtain ⟨⟨more, n'⟩, hrest, heq⟩ := Option.map_eq_some_iff.1 hmore
      cases heq
      exact .add (ih hrest) fun _ => hfirst

/-- A structured header ends with a semicolon or a parenthesis. -/
theorem endsClear_read (ts : List Token) : EndsClear ts (read .structured ts).2 := by
  cases ts with
  | nil => exact .zero _
  | cons t rest =>
    rw [read]
    split
    · next hparen =>
      cases hclauses : clauses? 3 rest with
      | none => exact .all (Nat.le_refl _)
      | some p =>
        obtain ⟨texts, n⟩ := p
        exact .cons (Token.noBrace_of_is hparen (by decide)) (endsClear_clauses? hclauses)
    · exact .zero _

end ForHeader

/-! ## The outcomes of reading -/

namespace Construct

/-- The constructs that neither begin with the keyword of a loop nor stand for a closing brace. -/
def Ordinary : Construct → Prop
  | leaf kind label => kind = .expression → label ≠ "\x7d"
  | close | forLoop _ _ | whileLoop _ _ _ => False
  | scope _ _ | typedArray _ _ _ | bareArray _ _ | call _ _ => True

/-- What reading can come to, from the token at hand and those after it. -/
inductive Reads (d : Dialect) (previous : Option Token) (t : Token) (rest : List Token) :
    Construct → Nat → Prop
  | forLoop {header : ForHeader} {n : Nat} : t = ⟨.keyword, "for"⟩ →
      ForHeader.read d.grammar.headerStyle rest = (header, n) →
      Reads d previous t rest (.forLoop "for" header) n
  | whileLoop {condition : Condition} {n : Nat} : t = ⟨.keyword, "while"⟩ →
      Condition.read d.grammar.headerStyle rest = (condition, n) →
      Reads d previous t rest (.whileLoop "while" (previous.any (·.is "\x7d")) condition) n
  | close : t.is "\x7d" → Reads d previous t rest .close 0
  | ordinary {c : Construct} {n : Nat} : c.Ordinary → EndsClear (t :: rest) (n + 1) →
      Reads d previous t rest c n

variable {d : Dialect} {previous : Option Token} {t : Token} {rest : List Token}

theorem ordinary_function (typeName name : String) (ts : List Token) :
    (function typeName name ts).Ordinary := by
  unfold function
  split
  · trivial
  · exact fun h => by cases h

theorem ordinary_declarator (typeName : String) (ts : List Token) :
    (declarator typeName ts).1.Ordinary ∧ EndsClear ts (declarator typeName ts).2 := by
  unfold declarator
  split
  · exact ⟨fun h => (by cases h), .zero _⟩
  · next t rest =>
    split
    · next h =>
      have hname := Token.noBrace_of_isIdentifier (Bool.and_eq_true_iff.1 h).1
      exact ⟨ordinary_function .., .cons hname (.zero _)⟩
    · split
      · next h =>
        have hname := Token.noBrace_of_isIdentifier (Bool.and_eq_true_iff.1 h).1
        exact ⟨trivial, .cons hname (Subscript.endsClear_dimensions rest)⟩
      · split
        · have hdimensions := Subscript.endsClear_dimensions (t :: rest)
          dsimp only
          split
          · next name after hdrop =>
            split
            · next hname =>
              have hclear := EndsClear.of_drop hdrop (Token.noBrace_of_isIdentifier hname)
              split
              · exact ⟨ordinary_function .., hclear⟩
              · exact ⟨trivial, hclear⟩
            · exact ⟨trivial, hdimensions⟩
          · exact ⟨trivial, hdimensions⟩
        · split
          · next hname =>
            have hname := Token.noBrace_of_isIdentifier hname
            exact ⟨fun h => (by cases h), .cons hname (.zero _)⟩
          · exact ⟨fun h => (by cases h), .zero _⟩

theorem endsClear_stars (ts : List Token) : EndsClear ts (ts.takeWhile (·.is "*")).length := by
  intro _ t ht
  rw [← List.prefix_iff_eq_take.1 (List.takeWhile_prefix _)] at ht
  have hstar := List.all_eq_true.1 List.all_takeWhile t (List.mem_of_getLast? ht)
  exact Token.noBrace_of_is hstar (by decide)

theorem ordinary_declaration (typeName : String) (ts : List Token) :
    (declaration typeName ts).1.Ordinary ∧ EndsClear ts (declaration typeName ts).2 := by
  unfold declaration
  dsimp only
  refine ⟨(ordinary_declarator ..).1, .add (ordinary_declarator ..).2 fun _ => ?_⟩
  split
  · exact endsClear_stars ts
  · exact .zero _

theorem reads_callSite (name : String) (ht : t.NoBrace) (hname : name ≠ "\x7d")
    (hparen : nextIs rest "(") :
    Reads d previous t rest (callSite d previous name rest).1
      (callSite d previous name rest).2 := by
  have halone : EndsClear (t :: rest) 1 := .cons ht (.zero _)
  unfold callSite
  split
  · exact .ordinary trivial halone
  · split
    · exact .ordinary (fun _ => hname) halone
    · split
      · exact .ordinary (fun h => by cases h) halone
      · cases rest with
        | nil => cases hparen
        | cons paren rest =>
          have hopen : paren.NoBrace := Token.noBrace_of_is hparen (by decide)
          exact .ordinary trivial (.cons ht (.cons hopen (Arguments.endsClear_read d 0 rest)))

theorem reads_plain :
    Reads d previous t rest (plain d previous t rest).1 (plain d previous t rest).2 := by
  unfold plain
  split
  · next hbrace => exact .close hbrace
  · next hbrace =>
    have ht : t.NoBrace := fun h => absurd h hbrace
    have hname : t.text ≠ "\x7d" := fun h => hbrace (beq_iff_eq.2 h)
    split
    · next h => exact reads_callSite t.text ht hname (Bool.and_eq_true_iff.1 h).2
    · split
      · exact .ordinary trivial (.cons ht (Subscript.endsClear_dimensions rest))
      · exact .ordinary (fun _ => hname) (.cons ht (.zero _))

/-- The keywords of the two loops. -/
theorem eq_of_action? {g : Grammar} {text : String} {action : KeywordAction}
    (h : g.action? text = some action) :
    (action = .forLoop → text = "for") ∧ (action = .whileLoop → text = "while") := by
  have hentries : ∀ p ∈ g.actions,
      (p.2 = .forLoop → p.1 = "for") ∧ (p.2 = .whileLoop → p.1 = "while") := by
    cases g <;> decide
  obtain ⟨before, after, heq, -⟩ := List.lookup_eq_some_iff.1 h
  exact hentries (text, action) (heq ▸ List.mem_append_right _ List.mem_cons_self)

theorem reads_keyword {action : KeywordAction} (ht : t.kind = .keyword)
    (h : d.grammar.action? t.text = some action) :
    Reads d previous t rest (keyword d.grammar previous t.text rest action).1
      (keyword d.grammar previous t.text rest action).2 := by
  have hbrace : t.NoBrace := Token.noBrace_of_kind ht (by decide)
  have halone : EndsClear (t :: rest) 1 := .cons hbrace (.zero _)
  have heq : ∀ text, t.text = text → t = ⟨.keyword, text⟩ := by
    intro text htext
    rw [← ht, ← htext]
  cases action with
  | forLoop =>
    have hfor := (eq_of_action? h).1 rfl
    rw [hfor]
    exact .forLoop (heq _ hfor) rfl
  | whileLoop =>
    have hwhile := (eq_of_action? h).2 rfl
    rw [hwhile]
    exact .whileLoop (heq _ hwhile) rfl
  | typeDeclaration =>
    obtain ⟨hordinary, hclear⟩ := ordinary_declaration t.text rest
    exact .ordinary hordinary (.cons hbrace hclear)
  | newInstance =>
    unfold keyword
    dsimp only
    split
    · split
      · next hname =>
        have hname := Token.noBrace_of_isIdentifier hname
        exact .ordinary (fun h => by cases h) (.cons hbrace (.cons hname (.zero _)))
      · exact .ordinary (fun h => by cases h) halone
    · exact .ordinary (fun h => by cases h) halone
  | doLoop => exact .ordinary trivial halone
  | conditional => exact .ordinary trivial halone
  | returnStatement => exact .ordinary (fun h => by cases h) halone
  | typedef => exact .ordinary (fun h => by cases h) halone
  | sizeof => exact .ordinary (fun h => by cases h) halone
  | specialReference => exact .ordinary (fun h => by cases h) halone

theorem reads_read (d : Dialect) (previous : Option Token) (t : Token) (rest : List Token) :
    Reads d previous t rest (read d previous t rest).1 (read d previous t rest).2 := by
  unfold read
  split
  · next ht =>
    split
    · next h => exact reads_keyword ht h
    · exact reads_plain
  · next ht =>
    have hbrace : t.NoBrace := Token.noBrace_of_kind ht (by decide)
    exact .ordinary (fun h => by cases h) (.cons hbrace (.zero _))
  · exact reads_plain

theorem reads_of_read_eq {c : Construct} {n : Nat} (h : read d previous t rest = (c, n)) :
    Reads d previous t rest c n := by
  have hreads := reads_read d previous t rest
  rwa [h] at hreads

end Construct

end GrowthOrder
