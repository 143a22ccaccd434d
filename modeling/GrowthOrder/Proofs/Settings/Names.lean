import GrowthOrder.Proofs.Token.Printing
import GrowthOrder.Settings.Load
import Mathlib

/-!
# Names of routines are words of the scanner

The names of further constant-time routines are looked up among the texts of tokens, so a name that
no token can have is of no use. Settings are checked by a rule about the characters of a name, and
the scanner has a rule of its own. The two agree, whatever the scanner drops or takes out around a
word: a text is a word by the first rule exactly if the scanner makes one token of all of it, and
that token is a word.
-/
namespace GrowthOrder

/-- Scanning the text gives one token, which is a word and has the whole text. -/
def Grammar.ScansAsWord (g : Grammar) (text : String) : Prop :=
  ∃ t, g.tokenize text = [t] ∧ (t.kind = .identifier ∨ t.kind = .keyword) ∧ t.text = text

variable {g : Grammar} {t : Token} {text : String}

theorem Scan.kind_word (g : Grammar) (text : String) :
    (word g text).kind = .identifier ∨ (word g text).kind = .keyword := by
  unfold word
  split
  · exact .inr rfl
  · exact .inl rfl

/-- A lexeme that is no literal is scanned by itself, comments or not. -/
theorem Lexeme.tokenize_text (h : Lexeme g t) (hkind : t.kind ≠ .literal) :
    g.tokenize t.text = [t] := by
  have hgap : Scan.AtGap [] := fun c hc => absurd hc (by simp)
  have hscanned : g.scannedText t.text = t.text.toList := by
    unfold Grammar.scannedText
    split
    · have hstrip := Comment.strip_append_gap h (fun hliteral => absurd hliteral hkind) hgap
      rwa [List.append_nil, Comment.strip, List.append_nil] at hstrip
    · rfl
  have htokens := Scan.tokens_append_gap h hgap
  rw [List.append_nil, Scan.tokens] at htokens
  rw [Grammar.tokenize, hscanned, htokens]

namespace Settings

theorem isWord_ofList {c : Char} {cs : List Char} :
    isWord (String.ofList (c :: cs)) ↔ Scan.isWordStart c ∧ ∀ x ∈ cs, Scan.isWordRest x := by
  unfold isWord
  rw [String.toList_ofList, Bool.and_eq_true, List.all_eq_true]
  rfl

/-- What the scanner takes for a word is spelled as one. -/
theorem isWord_of_lexeme (h : Lexeme g t) (hkind : t.kind = .identifier ∨ t.kind = .keyword) :
    isWord t.text := by
  cases h with
  | word hc hcs =>
    rw [Scan.text_word]
    exact isWord_ofList.2 ⟨hc, hcs⟩
  | number _ _ | string _ | character _ | stray _ _ => simp at hkind
  | @symbol s _ =>
    obtain ⟨text, kind⟩ := s
    cases kind <;> simp [SymbolKind.tokenKind] at hkind

/-- The rule about characters and the rule of the scanner agree on every text. -/
theorem isWord_iff_scansAsWord (g : Grammar) (text : String) :
    isWord text ↔ g.ScansAsWord text := by
  constructor
  · intro h
    cases htext : text.toList with
    | nil =>
      rw [isWord, htext] at h
      cases h
    | cons c cs =>
      obtain rfl : text = String.ofList (c :: cs) := by rw [← htext, String.ofList_toList]
      obtain ⟨hc, hcs⟩ := isWord_ofList.1 h
      have hkind := Scan.kind_word g (String.ofList (c :: cs))
      have hliteral : (Scan.word g (String.ofList (c :: cs))).kind ≠ .literal := by
        intro hliteral
        rw [hliteral] at hkind
        simp at hkind
      have htokens := (Lexeme.word (g := g) hc hcs).tokenize_text hliteral
      rw [Scan.text_word] at htokens
      exact ⟨_, htokens, hkind, Scan.text_word g _⟩
  · rintro ⟨t, htokens, hkind, rfl⟩
    have hmem : t ∈ g.tokenize t.text := by rw [htokens]; exact List.mem_singleton_self t
    exact isWord_of_lexeme (Scan.lexeme_of_mem_tokens hmem) hkind

/-- Settings pass the check exactly if the scanner of either grammar reads each of their names as
one word; else the complaint is about a name that it does not read so. -/
theorem validate_iff_scansAsWord (s : Settings) (g : Grammar) :
    (s.validate = .ok s ↔ ∀ name ∈ s.cIntrinsics ++ s.javaIntrinsics, g.ScansAsWord name) ∧
    ∀ e, s.validate = .error e →
      ∃ name ∈ s.cIntrinsics ++ s.javaIntrinsics, ¬ g.ScansAsWord name ∧ e = .invalidName name := by
  unfold validate
  cases hbad : s.badName? with
  | none =>
    have hall : ∀ name ∈ s.cIntrinsics ++ s.javaIntrinsics, g.ScansAsWord name := by
      intro name hname
      have hgood := List.find?_eq_none.1 hbad name hname
      exact (isWord_iff_scansAsWord g name).1 (by simpa using hgood)
    exact ⟨⟨fun _ => hall, fun _ => rfl⟩, fun e he => by cases he⟩
  | some name =>
    have hmem : name ∈ s.cIntrinsics ++ s.javaIntrinsics := List.mem_of_find?_eq_some hbad
    have hno : ¬ g.ScansAsWord name := by
      rw [← isWord_iff_scansAsWord]
      simpa using List.find?_some hbad
    refine ⟨⟨fun h => (by cases h), fun hall => absurd (hall name hmem) hno⟩, fun e he => ?_⟩
    exact ⟨name, hmem, hno, (Except.error.inj he).symm⟩

/-- A digit may stand in a word but not begin it. -/
theorem validate_iff_scansAsWord_digit :
    Settings.validate { cIntrinsics := ["x2", "2x"] } = .error (.invalidName "2x") ∧
      ¬ Grammar.cLike.ScansAsWord "2x" := by
  have herror : Settings.validate { cIntrinsics := ["x2", "2x"] } =
      .error (.invalidName "2x") := rfl
  obtain ⟨name, -, hno, heq⟩ := (validate_iff_scansAsWord _ .cLike).2 _ herror
  cases heq
  exact ⟨herror, hno⟩

end Settings

end GrowthOrder
