import GrowthOrder.Proofs.Token.Lexemes

/-!
# What the scanner makes of a text

The text of a scanned token agrees with its kind: keywords and symbols stand in the tables of the
grammar, and words and literals are known by their first character. So a bracket, a brace, a
parenthesis or a semicolon is never taken for a word, a literal or an operator.
-/
namespace GrowthOrder

/-- The token is one of those that the scanner makes of some source text. -/
def Token.Scanned (g : Grammar) (t : Token) : Prop :=
  ∃ source, t ∈ g.tokenize source

/-- What the kind of a token says of its text. -/
def Token.Fits (g : Grammar) (t : Token) : Prop :=
  match t.kind with
  | .keyword => g.isKeyword t.text
  | .identifier => g.isKeyword t.text = false ∧ t.text.toList.head?.any Scan.isWordStart
  | .literal => t.text.toList.head?.any fun c => c.isDigit || c == '"' || c == '\x27'
  | .operator => t.text ∈ g.operators
  | .separator => t.text ∈ g.separators
  | .unknown => t.text.toList.head?.any Scan.isPunctuation

namespace Scan

variable {g : Grammar} {t : Token}

theorem fits_word (c : Char) (tail : List Char) (hc : isWordStart c) :
    (word g (String.ofList (c :: tail))).Fits g := by
  unfold word
  split
  · next hk => exact hk
  · next hk =>
    refine ⟨Bool.eq_false_iff.2 hk, ?_⟩
    rw [String.toList_ofList]
    exact hc

theorem fits_symbol {s : String × SymbolKind} (h : s ∈ g.symbols) :
    (Token.mk s.2.tokenKind s.1).Fits g := by
  rcases List.mem_append.1 h with h | h
  · obtain ⟨text, htext, rfl⟩ := List.mem_map.1 h
    exact htext
  · obtain ⟨text, htext, rfl⟩ := List.mem_map.1 h
    exact htext

theorem fits_of_lexeme (h : Lexeme g t) : t.Fits g := by
  cases h with
  | word hc _ => exact fits_word _ _ hc
  | number hd _ => simp [Token.Fits, hd]
  | string _ => simp [Token.Fits]
  | character _ => simp [Token.Fits]
  | symbol hs => exact fits_symbol hs
  | stray hp _ => simp [Token.Fits, hp]

/-- An unknown token is no symbol. -/
theorem longestSymbol_of_lexeme (h : Lexeme g t) (hk : t.kind = .unknown) :
    g.longestSymbol t.text.toList = none := by
  cases h with
  | word _ _ =>
    unfold word at hk
    split at hk <;> cases hk
  | number _ _ | string _ | character _ => cases hk
  | @symbol s hs =>
    obtain ⟨text, kind⟩ := s
    cases kind <;> cases hk
  | stray _ hnone =>
    rw [String.toList_ofList]
    exact hnone

end Scan

namespace Token

variable {g : Grammar} {t : Token}

theorem Scanned.fits (h : t.Scanned g) : t.Fits g := by
  obtain ⟨source, h⟩ := h
  exact Scan.fits_of_lexeme (Scan.lexeme_of_mem_tokens h)

/-- The symbols that group and end statements. -/
def grouping : List String :=
  ["(", ")", "[", "]", "\x7b", "\x7d", ";"]

/-- A word, a literal or an operator is no grouping symbol. -/
theorem Scanned.not_mem_grouping (h : t.Scanned g)
    (hk : t.kind = .identifier ∨ t.kind = .literal ∨ t.kind = .operator) :
    t.text ∉ grouping := by
  have hfits := h.fits
  intro hmem
  rcases hk with hk | hk | hk
  · rw [Fits, hk] at hfits
    have hno : ∀ text ∈ grouping, ¬ text.toList.head?.any Scan.isWordStart := by decide
    exact hno _ hmem hfits.2
  · rw [Fits, hk] at hfits
    have hno : ∀ text ∈ grouping,
        ¬ text.toList.head?.any fun c => c.isDigit || c == '"' || c == '\x27' := by decide
    exact hno _ hmem hfits
  · rw [Fits, hk] at hfits
    have hno : ∀ text ∈ grouping, text ∉ g.operators := by cases g <;> decide
    exact hno _ hmem hfits

theorem Scanned.ne_of_identifier (h : t.Scanned g) (hk : t.kind = .identifier) {text : String}
    (ht : ¬ text.toList.head?.any Scan.isWordStart) : t.text ≠ text := by
  have hfits := h.fits
  rw [Fits, hk] at hfits
  rintro rfl
  exact ht hfits.2

/-- A grouping symbol is always scanned as a separator. -/
theorem Scanned.kind_of_mem_grouping (h : t.Scanned g) (ht : t.text ∈ grouping) :
    t.kind = .separator := by
  cases hk : t.kind with
  | separator => rfl
  | identifier => exact absurd ht (h.not_mem_grouping (.inl hk))
  | literal => exact absurd ht (h.not_mem_grouping (.inr (.inl hk)))
  | operator => exact absurd ht (h.not_mem_grouping (.inr (.inr hk)))
  | keyword =>
    have hfits := h.fits
    rw [Fits, hk] at hfits
    have hno : ∀ text ∈ grouping, ¬ g.isKeyword text := by cases g <;> decide
    exact absurd hfits (hno _ ht)
  | unknown =>
    obtain ⟨source, hmem⟩ := h
    have hnone := Scan.longestSymbol_of_lexeme (Scan.lexeme_of_mem_tokens hmem) hk
    have hno : ∀ text ∈ grouping, g.longestSymbol text.toList ≠ none := by cases g <;> decide
    exact absurd hnone (hno _ ht)

end Token

end GrowthOrder
