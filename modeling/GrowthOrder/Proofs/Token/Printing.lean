import GrowthOrder.Proofs.Token.Lexemes
import Mathlib

/-!
# Printed tokens are scanned again

The texts of scanned tokens, with a blank between every two, are scanned to the same tokens. The
scanner cuts each of them off as a whole. Where comments are taken out first, none is found among
the tokens: no symbol begins a comment in front of a blank, and a literal is passed over as a whole
if it holds no line feed. A literal with a line feed is not seen as one when comments are taken out,
so that its closing quote may be taken for an opening one.
-/
namespace GrowthOrder

/-- The texts of tokens with a blank between every two. -/
def Token.printed (ts : List Token) : String :=
  " ".intercalate (ts.map Token.text)

/-- The texts of tokens with a blank before each. -/
def Token.gapped (ts : List Token) : List Char :=
  ts.flatMap fun t => ' ' :: t.text.toList

variable {g : Grammar} {t : Token} {ts : List Token} {cs rest : List Char}

theorem Token.toList_printed_cons (t : Token) (ts : List Token) :
    (printed (t :: ts)).toList = t.text.toList ++ gapped ts := by
  induction ts generalizing t with
  | nil => simp [printed, gapped]
  | cons u ts ih =>
    have hcons : printed (t :: u :: ts) = t.text ++ " " ++ printed (u :: ts) :=
      String.intercalate_cons_cons
    rw [hcons, String.toList_append, String.toList_append, ih]
    simp [gapped]

/-! ## Scanning -/

namespace Scan

theorem atGap_gapped (ts : List Token) : AtGap (Token.gapped ts) := by
  intro c hc
  cases ts with
  | nil => cases hc
  | cons t ts => exact (Option.some.inj hc).symm

theorem tokens_append_gap (h : Lexeme g t) (hrest : AtGap rest) :
    tokens g (t.text.toList ++ rest) = t :: tokens g rest := by
  obtain ⟨c, cs, hlist, hlexeme⟩ := lexeme_append_gap h hrest
  rw [hlist, List.cons_append, tokens, hlexeme]
  simp

theorem tokens_blank (rest : List Char) : tokens g (' ' :: rest) = tokens g rest := by
  have hdrop : lexeme g ' ' rest = (none, 0) := rfl
  rw [tokens, hdrop]
  rfl

theorem tokens_gapped (h : ∀ t ∈ ts, Lexeme g t) : tokens g (Token.gapped ts) = ts := by
  induction ts with
  | nil => rw [Token.gapped, List.flatMap_nil, tokens]
  | cons t ts ih =>
    have hcons : Token.gapped (t :: ts) = ' ' :: (t.text.toList ++ Token.gapped ts) := rfl
    rw [hcons, tokens_blank, tokens_append_gap (h t List.mem_cons_self) (atGap_gapped ts),
      ih fun u hu => h u (List.mem_cons_of_mem _ hu)]

theorem tokens_printed (h : ∀ t ∈ ts, Lexeme g t) : tokens g (Token.printed ts).toList = ts := by
  cases ts with
  | nil => rw [Token.printed, List.map_nil, String.intercalate_nil, String.toList_empty, tokens]
  | cons t ts =>
    rw [Token.toList_printed_cons, tokens_append_gap (h t List.mem_cons_self) (atGap_gapped ts),
      tokens_gapped fun u hu => h u (List.mem_cons_of_mem _ hu)]

end Scan

/-! ## Taking comments out -/

namespace Comment

open Scan (AtGap)

/-- Nothing that is taken for a quote or for the beginning of a comment. -/
def isPlain : List Char → Bool
  | [] => true
  | c :: cs => c ≠ '"' && c ≠ '\x27' &&
    (c ≠ '/' || (cs.head? ≠ some '/' && cs.head? ≠ some '*')) && isPlain cs

theorem isPlain_of_forall (h : ∀ x ∈ cs, x ≠ '"' ∧ x ≠ '\x27' ∧ x ≠ '/') : isPlain cs := by
  induction cs with
  | nil => rfl
  | cons c cs ih =>
    obtain ⟨hq, hq', hs⟩ := h c List.mem_cons_self
    simp [isPlain, hq, hq', hs, ih fun x hx => h x (List.mem_cons_of_mem _ hx)]

theorem strip_cons_plain {c : Char} (hq : c ≠ '"') (hq' : c ≠ '\x27')
    (hs : c = '/' → cs.head? ≠ some '/' ∧ cs.head? ≠ some '*') :
    strip (c :: cs) = c :: strip cs := by
  have hline : ¬ (c = '/' ∧ cs.head? = some '/') := fun h => (hs h.1).1 h.2
  have hblock : ¬ (c = '/' ∧ cs.head? = some '*') := fun h => (hs h.1).2 h.2
  rw [strip, if_neg (not_or.2 ⟨hq, hq'⟩), if_neg hline, if_neg hblock]

theorem strip_plain (h : isPlain cs) (hrest : AtGap rest) :
    strip (cs ++ rest) = cs ++ strip rest := by
  induction cs with
  | nil => rfl
  | cons c cs ih =>
    simp only [isPlain, Bool.and_eq_true, Bool.or_eq_true, decide_eq_true_eq] at h
    obtain ⟨⟨⟨hq, hq'⟩, hs⟩, hcs⟩ := h
    rw [List.cons_append, strip_cons_plain hq hq', ih hcs, List.cons_append]
    intro hslash
    have hnext := hs.resolve_left fun hne => hne hslash
    cases cs with
    | cons x cs => exact hnext
    | nil =>
      cases rest with
      | nil => exact hnext
      | cons x rest =>
        obtain rfl := hrest x rfl
        simp

theorem quotedExtent_append {q : Char} (hq : q ≠ '\\') (h : QuotedBody q cs) (hn : '\n' ∉ cs)
    (rest : List Char) : quotedExtent q (cs ++ rest) = some cs.length := by
  induction h with
  | close =>
    rw [List.cons_append, quotedExtent.eq_3 _ _ _ fun _ _ h => absurd h hq, if_pos rfl]
    rfl
  | @escape c cs hc _ ih =>
    rw [List.cons_append, List.cons_append, quotedExtent, if_neg hc,
      ih fun h => hn (List.mem_cons_of_mem _ (List.mem_cons_of_mem _ h))]
    rfl
  | @char c cs hcq hb _ ih =>
    have hline : c ≠ '\n' := fun h => hn (h ▸ List.mem_cons_self)
    rw [List.cons_append, quotedExtent.eq_3 _ _ _ fun _ _ h => absurd h hb, if_neg hcq,
      if_neg (not_or.2 ⟨hb, hline⟩), ih fun h => hn (List.mem_cons_of_mem _ h)]
    rfl

/-- A quoted literal on one line is passed over. -/
theorem strip_quoted {q : Char} (hq : q = '"' ∨ q = '\x27') (h : QuotedBody q cs)
    (hn : '\n' ∉ cs) : strip (q :: cs ++ rest) = q :: cs ++ strip rest := by
  have hb : q ≠ '\\' := by rcases hq with rfl | rfl <;> decide
  rw [List.cons_append, strip, if_pos hq, quotedExtent_append hb h hn]
  simp

/-- A lexeme in front of a gap stays as it is, unless it is a literal with a line feed. -/
theorem strip_append_gap (h : Lexeme g t) (hn : t.kind = .literal → '\n' ∉ t.text.toList)
    (hrest : AtGap rest) : strip (t.text.toList ++ rest) = t.text.toList ++ strip rest := by
  cases h with
  | @word c cs hc hcs =>
    rw [Scan.text_word, String.toList_ofList]
    refine strip_plain (isPlain_of_forall fun x hx => ?_) hrest
    have hx : Scan.isWordRest x := by
      rcases List.mem_cons.1 hx with rfl | hx
      · exact Scan.isWordRest_of_isWordStart hc
      · exact hcs x hx
    refine ⟨?_, ?_, ?_⟩ <;> (rintro rfl; cases hx)
  | @number c cs hc hcs =>
    rw [String.toList_ofList]
    refine strip_plain (isPlain_of_forall fun x hx => ?_) hrest
    have hx : x.isDigit := by
      rcases List.mem_cons.1 hx with rfl | hx
      · exact hc
      · exact hcs x hx
    refine ⟨?_, ?_, ?_⟩ <;> (rintro rfl; cases hx)
  | @string cs hcs =>
    have hline := hn rfl
    rw [String.toList_ofList] at hline ⊢
    exact strip_quoted (.inl rfl) hcs fun h => hline (List.mem_cons_of_mem _ h)
  | @character cs hcs =>
    have hline := hn rfl
    rw [String.toList_ofList] at hline ⊢
    exact strip_quoted (.inr rfl) hcs.quotedBody fun h => hline (List.mem_cons_of_mem _ h)
  | @symbol s hs =>
    have hall : ∀ s ∈ g.symbols, isPlain s.1.toList := by cases g <;> decide
    exact strip_plain (hall s hs) hrest
  | @stray c hc _ =>
    obtain ⟨-, -, hq, hq'⟩ := Scan.not_of_isPunctuation hc
    rw [String.toList_ofList]
    exact strip_plain (by simp [isPlain, hq, hq']) hrest

theorem strip_gapped (h : ∀ t ∈ ts, Lexeme g t)
    (hn : ∀ t ∈ ts, t.kind = .literal → '\n' ∉ t.text.toList) :
    strip (Token.gapped ts) = Token.gapped ts := by
  induction ts with
  | nil => rw [Token.gapped, List.flatMap_nil, strip]
  | cons t ts ih =>
    have hcons : Token.gapped (t :: ts) = ' ' :: (t.text.toList ++ Token.gapped ts) := rfl
    rw [hcons, strip_cons_plain (by decide) (by decide) fun h => absurd h (by decide),
      strip_append_gap (h t List.mem_cons_self) (hn t List.mem_cons_self) (Scan.atGap_gapped ts),
      ih (fun u hu => h u (List.mem_cons_of_mem _ hu)) fun u hu => hn u (List.mem_cons_of_mem _ hu)]

/-- There are no comments among printed tokens. -/
theorem strip_printed (h : ∀ t ∈ ts, Lexeme g t)
    (hn : ∀ t ∈ ts, t.kind = .literal → '\n' ∉ t.text.toList) :
    strip (Token.printed ts).toList = (Token.printed ts).toList := by
  cases ts with
  | nil => rw [Token.printed, List.map_nil, String.intercalate_nil, String.toList_empty, strip]
  | cons t ts =>
    rw [Token.toList_printed_cons,
      strip_append_gap (h t List.mem_cons_self) (hn t List.mem_cons_self) (Scan.atGap_gapped ts),
      strip_gapped (fun u hu => h u (List.mem_cons_of_mem _ hu))
        fun u hu => hn u (List.mem_cons_of_mem _ hu)]

end Comment

namespace Grammar

/-- Scanning the printed tokens of a text gives these tokens again: under the first grammar for
every text, under the second, which takes comments out, for every text without a literal that holds
a line feed. -/
theorem tokenize_printed :
    (∀ source, tokenize .cLike (Token.printed (tokenize .cLike source)) =
      tokenize .cLike source) ∧
    ∀ source, (∀ t ∈ tokenize .javaLike source, t.kind = .literal → '\n' ∉ t.text.toList) →
      tokenize .javaLike (Token.printed (tokenize .javaLike source)) =
        tokenize .javaLike source := by
  have hlexemes : ∀ (g : Grammar) source, ∀ t ∈ g.tokenize source, Lexeme g t :=
    fun g source t ht => Scan.lexeme_of_mem_tokens ht
  constructor
  · intro source
    exact Scan.tokens_printed (hlexemes .cLike source)
  · intro source hn
    have hstrip := Comment.strip_printed (hlexemes .javaLike source) hn
    change Scan.tokens .javaLike (Comment.strip _) = _
    rw [hstrip, Scan.tokens_printed (hlexemes .javaLike source)]

/-- A string that looks like a comment, a quote and a comment that is one. -/
theorem tokenize_printed_comment :
    tokenize .javaLike "s+=\"//\"+'\"';//c" = [⟨.identifier, "s"⟩, ⟨.operator, "+="⟩,
      ⟨.literal, "\"//\""⟩, ⟨.operator, "+"⟩, ⟨.literal, "'\"'"⟩, ⟨.separator, ";"⟩] ∧
    tokenize .javaLike (Token.printed (tokenize .javaLike "s+=\"//\"+'\"';//c")) =
      tokenize .javaLike "s+=\"//\"+'\"';//c" := by
  have heval : tokenize .javaLike "s+=\"//\"+'\"';//c" = [⟨.identifier, "s"⟩, ⟨.operator, "+="⟩,
      ⟨.literal, "\"//\""⟩, ⟨.operator, "+"⟩, ⟨.literal, "'\"'"⟩, ⟨.separator, ";"⟩] := by cbv
  refine ⟨heval, tokenize_printed.2 _ ?_⟩
  rw [heval]
  decide

-- the closing quote of the first literal and the opening one of the second are then on one line
example : tokenize .javaLike (Token.printed (tokenize .javaLike "\"a\n\"\n\"//\"")) ≠
    tokenize .javaLike "\"a\n\"\n\"//\"" := by
  have heval : tokenize .javaLike "\"a\n\"\n\"//\"" =
      [⟨.literal, "\"a\n\""⟩, ⟨.literal, "\"//\""⟩] := by cbv
  have hagain : tokenize .javaLike "\"a\n\" \"//\"" = [⟨.literal, "\"a\n\""⟩] := by cbv
  rw [heval]
  change tokenize .javaLike "\"a\n\" \"//\"" ≠ _
  rw [hagain]
  decide

end Grammar

end GrowthOrder
