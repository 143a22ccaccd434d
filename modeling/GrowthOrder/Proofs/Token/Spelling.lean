import GrowthOrder.Proofs.Token.Kinds
import Mathlib

/-!
# The text of a token and its place

Each kind of token has its own spelling, and no text is spelled as two kinds. So the kind of a
scanned token can be read off its text: its first character tells words, symbols and literals apart,
and the tables of the grammar do the rest. The scanner is also followed with the places at which its
tokens begin: each token stands in the text at its place, the tokens do not overlap, and at the
place of a symbol no longer symbol of the grammar begins.
-/
namespace GrowthOrder

/-- How the tokens of each kind are spelled. -/
def TokenKind.Spelling (g : Grammar) (text : String) : TokenKind → Prop
  | .keyword => text ∈ g.keywords
  | .identifier => text.toList.head?.any Scan.isWordStart ∧ text.toList.all Scan.isWordRest ∧
      text ∉ g.keywords
  | .literal => (text ≠ "" ∧ text.toList.all Char.isDigit) ∨
      ∃ q body, (q = '"' ∨ q = '\x27') ∧ text.toList = q :: (body ++ [q])
  | .operator => text ∈ g.operators
  | .separator => text ∈ g.separators
  | .unknown => g = .cLike ∧ text = ":"

variable {g : Grammar} {t : Token} {text : String} {cs rest : List Char}

/-! ## From the text to the kind -/

/-- The kind of the tokens with this text, by the first character and the tables. -/
def Grammar.kindOf (g : Grammar) (text : String) : TokenKind :=
  if text.toList.head?.any Scan.isWordStart then
    if text ∈ g.keywords then .keyword else .identifier
  else if text.toList.head?.any Scan.isPunctuation then
    if text ∈ g.operators then .operator
    else if text ∈ g.separators then .separator
    else .unknown
  else .literal

theorem head?_any_eq_false {p q : Char → Bool} (hpq : ∀ c, p c → q c = false)
    (h : cs.head?.any p) : cs.head?.any q = false := by
  cases cs with
  | nil => cases h
  | cons c cs => exact hpq c h

theorem isPunctuation_of_isDigit {c : Char} (h : c.isDigit) : Scan.isPunctuation c = false := by
  refine Bool.eq_false_iff.2 fun hp => ?_
  have hno := (Scan.not_of_isPunctuation hp).2.1
  rw [h] at hno
  cases hno

namespace Grammar

theorem kindOf_of_isPunctuation (h : text.toList.head?.any Scan.isPunctuation) :
    g.kindOf text = if text ∈ g.operators then .operator
      else if text ∈ g.separators then .separator else .unknown := by
  have hword : text.toList.head?.any Scan.isWordStart = false :=
    head?_any_eq_false (fun c hc => (Scan.not_of_isPunctuation hc).1) h
  rw [kindOf, if_neg (by simp [hword]), if_pos h]

theorem kindOf_literal (hword : text.toList.head?.any Scan.isWordStart = false)
    (hmark : text.toList.head?.any Scan.isPunctuation = false) : g.kindOf text = .literal := by
  rw [kindOf, if_neg (by simp [hword]), if_neg (by simp [hmark])]

/-- A text is spelled as one kind only. -/
theorem kindOf_eq {kind : TokenKind} (h : kind.Spelling g text) : g.kindOf text = kind := by
  cases kind with
  | keyword =>
    have hwords : ∀ text ∈ g.keywords, text.toList.head?.any Scan.isWordStart := by
      cases g <;> decide
    rw [kindOf, if_pos (hwords text h)]
    exact if_pos h
  | identifier => rw [kindOf, if_pos h.1, if_neg h.2.2]
  | literal =>
    rcases h with ⟨hne, hdigits⟩ | ⟨q, body, hq, htext⟩
    · have hfirst : text.toList.head?.any Char.isDigit := by
        cases htext : text.toList with
        | nil => exact absurd (String.toList_eq_nil_iff.1 htext) hne
        | cons c cs =>
          rw [htext, List.all_cons, Bool.and_eq_true] at hdigits
          exact hdigits.1
      exact kindOf_literal (head?_any_eq_false (fun c => Scan.isWordStart_of_isDigit) hfirst)
        (head?_any_eq_false (fun c => isPunctuation_of_isDigit) hfirst)
    · rcases hq with rfl | rfl
      · exact kindOf_literal (by rw [htext]; rfl) (by rw [htext]; rfl)
      · exact kindOf_literal (by rw [htext]; rfl) (by rw [htext]; rfl)
  | operator =>
    have hmarks : ∀ text ∈ g.operators, text.toList.head?.any Scan.isPunctuation := by
      cases g <;> decide
    rw [kindOf_of_isPunctuation (hmarks text h)]
    exact if_pos h
  | separator =>
    have hmarks : ∀ text ∈ g.separators, text.toList.head?.any Scan.isPunctuation := by
      cases g <;> decide
    have hother : ∀ text ∈ g.separators, text ∉ g.operators := by cases g <;> decide
    rw [kindOf_of_isPunctuation (hmarks text h), if_neg (hother text h)]
    exact if_pos h
  | unknown =>
    obtain ⟨rfl, rfl⟩ := h
    decide

end Grammar

/-! ## The spelling of what is scanned -/

theorem QuotedBody.exists_concat {q : Char} (h : QuotedBody q cs) : ∃ body, cs = body ++ [q] := by
  induction h with
  | close => exact ⟨[], rfl⟩
  | @escape c _ _ _ ih =>
    obtain ⟨body, rfl⟩ := ih
    exact ⟨'\\' :: c :: body, rfl⟩
  | @char c _ _ _ _ ih =>
    obtain ⟨body, rfl⟩ := ih
    exact ⟨c :: body, rfl⟩

theorem TokenKind.spelling_quoted {q : Char} (hq : q = '"' ∨ q = '\x27') (h : QuotedBody q cs) :
    literal.Spelling g (String.ofList (q :: cs)) := by
  obtain ⟨body, rfl⟩ := h.exists_concat
  exact .inr ⟨q, body, hq, String.toList_ofList⟩

theorem Token.spelling_word {c : Char} (hc : Scan.isWordStart c)
    (hcs : ∀ x ∈ cs, Scan.isWordRest x) :
    (Scan.word g (String.ofList (c :: cs))).kind.Spelling g (String.ofList (c :: cs)) := by
  by_cases hk : g.isKeyword (String.ofList (c :: cs))
  · rw [Scan.word, if_pos hk]
    exact List.contains_iff_mem.1 hk
  · rw [Scan.word, if_neg hk]
    refine ⟨?_, ?_, fun hmem => hk (List.contains_iff_mem.2 hmem)⟩
    · rw [String.toList_ofList]
      exact hc
    · rw [String.toList_ofList, List.all_cons, Scan.isWordRest_of_isWordStart hc]
      exact List.all_eq_true.2 hcs

/-- The only mark that begins no symbol is the colon, under the first grammar. -/
theorem Scan.eq_of_longestSymbol_eq_none {c : Char} (hp : isPunctuation c)
    (h : g.longestSymbol [c] = none) : g = .cLike ∧ c = ':' := by
  have hc := of_isPunctuation (p := fun c => (g.longestSymbol [c]).isSome ||
    (g = .cLike && c = ':')) hp (by cases g <;> rfl)
  simpa [h] using hc

theorem Lexeme.spelling (h : Lexeme g t) : t.kind.Spelling g t.text := by
  cases h with
  | word hc hcs =>
    rw [Scan.text_word]
    exact Token.spelling_word hc hcs
  | @number c cs hc hcs =>
    refine .inl ⟨?_, ?_⟩
    · rw [ne_eq, ← String.toList_eq_nil_iff, String.toList_ofList]
      exact List.cons_ne_nil c cs
    · rw [String.toList_ofList, List.all_cons, hc]
      exact List.all_eq_true.2 hcs
  | string h => exact TokenKind.spelling_quoted (.inl rfl) h
  | character h => exact TokenKind.spelling_quoted (.inr rfl) h.quotedBody
  | @symbol s hs =>
    have hfits := Scan.fits_symbol hs
    obtain ⟨text, kind⟩ := s
    cases kind with
    | operator => exact hfits
    | separator => exact hfits
  | stray hp hnone =>
    obtain ⟨rfl, rfl⟩ := Scan.eq_of_longestSymbol_eq_none hp hnone
    exact ⟨rfl, rfl⟩

/-! ## The places of the tokens -/

namespace Scan

/-- The tokens of a text with the places at which they begin, the first character having the given
place. -/
def placed (g : Grammar) (place : Nat) : List Char → List (Nat × Token)
  | [] => []
  | c :: cs =>
    let (token, n) := lexeme g c cs
    token.toList.map (place, ·) ++ placed g (place + n + 1) (cs.drop n)
termination_by text => text.length

theorem map_snd_placed (g : Grammar) (place : Nat) (cs : List Char) :
    (placed g place cs).map Prod.snd = tokens g cs := by
  fun_induction placed g place cs with
  | case1 =>
    rw [tokens]
    rfl
  | case2 place c cs token n hl ih =>
    rw [List.map_append, ih, tokens, hl]
    simp

variable {place : Nat} {p : Nat × Token}

/-- A token is cut off the text that begins at its place. -/
theorem exists_cut_of_mem_placed (h : p ∈ placed g place cs) :
    ∃ k rest, p.1 = place + k ∧ Cut g (cs.drop k) p.2 rest := by
  fun_induction placed g place cs with
  | case1 => cases h
  | case2 place c cs token n hl ih =>
    rcases List.mem_append.1 h with h | h
    · obtain ⟨t, ht, rfl⟩ := List.mem_map.1 h
      obtain rfl := Option.mem_toList.1 ht
      exact ⟨0, cs.drop n, rfl, cut_of_lexeme hl⟩
    · obtain ⟨k, rest, hplace, hcut⟩ := ih h
      have hdrop : (c :: cs).drop (n + k + 1) = (cs.drop n).drop k := by
        rw [List.drop_succ_cons, List.drop_drop]
      exact ⟨n + k + 1, rest, by omega, hdrop ▸ hcut⟩

theorem length_le_of_lexeme {c : Char} {n : Nat} (h : lexeme g c cs = (some t, n)) :
    t.text.length ≤ n + 1 := by
  have hlength := congrArg List.length (cut_of_lexeme h).text_eq
  rw [List.length_cons, List.length_append, List.length_drop, String.length_toList] at hlength
  omega

/-- No token reaches beyond the place of a later one. -/
theorem pairwise_placed (g : Grammar) (place : Nat) (cs : List Char) :
    (placed g place cs).Pairwise fun p q => p.1 + p.2.text.length ≤ q.1 := by
  fun_induction placed g place cs with
  | case1 => exact List.Pairwise.nil
  | case2 place c cs token n hl ih =>
    refine List.pairwise_append.2 ⟨?_, ih, ?_⟩
    · cases token with
      | none => exact List.Pairwise.nil
      | some t => exact List.pairwise_singleton _ _
    · intro p hp q hq
      obtain ⟨t, ht, rfl⟩ := List.mem_map.1 hp
      obtain rfl := Option.mem_toList.1 ht
      obtain ⟨k, rest, hplace, -⟩ := exists_cut_of_mem_placed hq
      have hlength := length_le_of_lexeme hl
      show place + t.text.length ≤ q.1
      omega

end Scan

namespace Grammar

/-- The tokens of a source text with their places among the characters that are scanned. -/
def placedTokens (g : Grammar) (source : String) : List (Nat × Token) :=
  Scan.placed g 0 (g.scannedText source)

theorem mem_symbols_of_mem_tables (h : text ∈ g.operators ++ g.separators) :
    ∃ kind, (text, kind) ∈ g.symbols := by
  rcases List.mem_append.1 h with h | h
  · exact ⟨.operator, List.mem_append_left _ (List.mem_map_of_mem h)⟩
  · exact ⟨.separator, List.mem_append_right _ (List.mem_map_of_mem h)⟩

/-- A scanned token has the spelling of its kind and of no other. Each stands in the text at its
place, one behind the other, and where an operator or a separator stands, no longer one begins. So
whatever groups or ends statements is a separator. -/
theorem tokenize_spelling (g : Grammar) (source : String) :
    (∀ t ∈ g.tokenize source, ∀ kind : TokenKind, kind.Spelling g t.text ↔ kind = t.kind) ∧
    (g.placedTokens source).map Prod.snd = g.tokenize source ∧
    (g.placedTokens source).Pairwise (fun p q => p.1 + p.2.text.length ≤ q.1) ∧
    (∀ p ∈ g.placedTokens source, p.2.text.toList <+: (g.scannedText source).drop p.1 ∧
      (p.2.kind = .operator ∨ p.2.kind = .separator → ∀ s ∈ g.operators ++ g.separators,
        s.toList <+: (g.scannedText source).drop p.1 → s.length ≤ p.2.text.length)) ∧
    ∀ t ∈ g.tokenize source, t.text ∈ Token.grouping → t.kind = .separator := by
  have hspelling : ∀ t ∈ g.tokenize source, ∀ kind : TokenKind,
      kind.Spelling g t.text ↔ kind = t.kind := by
    intro t ht kind
    have hown := (Scan.lexeme_of_mem_tokens ht).spelling
    constructor
    · intro hkind
      rw [← kindOf_eq hkind, kindOf_eq hown]
    · rintro rfl
      exact hown
  refine ⟨hspelling, Scan.map_snd_placed g 0 _, Scan.pairwise_placed g 0 _, ?_, ?_⟩
  · intro p hp
    obtain ⟨k, rest, hplace, hcut⟩ := Scan.exists_cut_of_mem_placed hp
    rw [hplace, Nat.zero_add]
    refine ⟨⟨rest, hcut.text_eq.symm⟩, fun hkind s hs hbegins => ?_⟩
    obtain ⟨kind, hmem⟩ := mem_symbols_of_mem_tables hs
    exact hcut.longest hkind _ hmem hbegins
  · intro t ht hgroup
    exact Token.Scanned.kind_of_mem_grouping ⟨source, ht⟩ hgroup

/-- Three symbols begin at the second character, and the longest is taken. -/
theorem tokenize_spelling_shift :
    placedTokens .javaLike "a>>>=b" = [(0, ⟨.identifier, "a"⟩), (1, ⟨.operator, ">>>"⟩),
      (4, ⟨.operator, "="⟩), (5, ⟨.identifier, "b"⟩)] ∧
    (∀ kind : TokenKind, kind.Spelling .javaLike ">>>" ↔ kind = .operator) ∧
    ∀ s ∈ operators .javaLike ++ separators .javaLike,
      s.toList <+: (scannedText .javaLike "a>>>=b").drop 1 → s.length ≤ 3 := by
  have hplaced : placedTokens .javaLike "a>>>=b" = [(0, ⟨.identifier, "a"⟩),
      (1, ⟨.operator, ">>>"⟩), (4, ⟨.operator, "="⟩), (5, ⟨.identifier, "b"⟩)] := by cbv
  obtain ⟨hspelling, hmap, -, hmunch, -⟩ := tokenize_spelling .javaLike "a>>>=b"
  rw [hplaced] at hmap hmunch
  refine ⟨hplaced, hspelling ⟨.operator, ">>>"⟩ ?_, ?_⟩
  · rw [← hmap]
    decide
  · exact (hmunch (1, ⟨.operator, ">>>"⟩) (by decide)).2 (.inl rfl)

end Grammar

end GrowthOrder
