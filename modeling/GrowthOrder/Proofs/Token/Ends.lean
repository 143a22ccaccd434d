import GrowthOrder.Proofs.Token.Printing
import Mathlib

/-!
# A mark in front and a line feed behind

A byte order mark in front of a text and a line feed behind it are no part of any token. The mark is
dropped by itself. The line feed belongs to no word, number or symbol, and it closes nothing: a
string, a character literal or a block comment that is open at the end of the text is still open
behind the line feed. So the tokens of a text do not change with them, comments or not.
-/
namespace GrowthOrder

variable {g : Grammar} {cs : List Char}

/-! ## Scanning -/

theorem CharacterBody.getLast? {body : List Char} (h : CharacterBody body) :
    body.getLast? = some '\x27' := by
  cases h <;> rfl

namespace Scan

theorem takeWhile_append_newline {p : Char → Bool} (hp : p '\n' = false) (cs : List Char) :
    (cs ++ ['\n']).takeWhile p = cs.takeWhile p := by
  induction cs with
  | nil => simp [hp]
  | cons c cs ih => simp [List.takeWhile_cons, ih]

/-- How a string ends is seen before the line feed. If it is not closed there, it is not closed by
the line feed either, which at most breaks it off behind a backslash. -/
theorem stringEnd_append_newline (cs : List Char) :
    stringEnd (cs ++ ['\n']) = stringEnd cs ∨
      stringEnd cs = .unclosed ∧ stringEnd (cs ++ ['\n']) = .broken cs.length := by
  fun_induction stringEnd cs with
  | case1 => exact .inl rfl
  | case2 rest => exact .inl rfl
  | case3 c rest hc ih =>
    rw [List.cons_append, List.cons_append, stringEnd, if_neg hc]
    rcases ih with ih | ⟨hopen, ih⟩
    · exact .inl (congrArg _ ih)
    · rw [hopen, ih]
      exact .inr ⟨rfl, rfl⟩
  | case4 rest =>
    rw [List.cons_append, stringEnd_cons (by decide), if_pos rfl]
    exact .inl rfl
  | case5 rest hlast =>
    -- a backslash that nothing follows
    cases rest with
    | nil => exact .inr ⟨rfl, rfl⟩
    | cons c rest => exact absurd rfl (hlast c rest rfl)
  | case6 c rest _ hq hb ih =>
    rw [List.cons_append, stringEnd_cons hb, if_neg hq]
    rcases ih with ih | ⟨hopen, ih⟩
    · exact .inl (congrArg _ ih)
    · rw [hopen, ih]
      exact .inr ⟨rfl, rfl⟩

theorem le_of_stringEnd_broken {n : Nat} (h : stringEnd cs = .broken n) : n ≤ cs.length := by
  fun_induction stringEnd cs generalizing n with
  | case1 => cases h
  | case2 rest =>
    cases h
    exact Nat.succ_le_succ (Nat.zero_le _)
  | case3 c rest hc ih =>
    cases hend : stringEnd rest with
    | broken m =>
      rw [hend] at h
      cases h
      exact Nat.add_le_add_right (ih hend) 2
    | closed m | unclosed =>
      rw [hend] at h
      cases h
  | case4 => cases h
  | case5 => cases h
  | case6 c rest _ hq hb ih =>
    cases hend : stringEnd rest with
    | broken m =>
      rw [hend] at h
      cases h
      exact Nat.add_le_add_right (ih hend) 1
    | closed m | unclosed =>
      rw [hend] at h
      cases h

theorem characterExtent_append_newline (cs : List Char) :
    characterExtent (cs ++ ['\n']) = characterExtent cs := by
  cases hextent : characterExtent cs with
  | some n =>
    obtain ⟨body, rest, rfl, rfl, hbody⟩ := exists_of_characterExtent hextent
    rw [List.append_assoc, characterExtent_append hbody]
  | none =>
    cases hmore : characterExtent (cs ++ ['\n']) with
    | none => rfl
    | some n =>
      obtain ⟨body, rest, htext, -, hbody⟩ := exists_of_characterExtent hmore
      exfalso
      rcases List.eq_nil_or_concat rest with rfl | ⟨front, x, rfl⟩
      · -- a literal ends with its mark and not with the line feed
        have hlast := congrArg List.getLast? htext
        rw [List.append_nil, hbody.getLast?, List.getLast?_concat] at hlast
        simp at hlast
      · rw [List.concat_eq_append, ← List.append_assoc] at htext
        obtain ⟨rfl, -⟩ := List.append_inj' htext rfl
        rw [characterExtent_append hbody] at hextent
        cases hextent

theorem longestSymbol_append_newline (c : Char) (cs : List Char) :
    g.longestSymbol (c :: (cs ++ ['\n'])) = g.longestSymbol (c :: cs) := by
  have hnewline : ∀ s ∈ g.symbols, '\n' ∉ s.1.toList := by cases g <;> decide
  rw [← List.cons_append]
  exact longestSymbol_append hnewline fun x hx => (Option.some.inj hx).symm

/-- A lexeme is cut off before the line feed, unless it is a string that is dropped to the end. -/
theorem lexeme_append_newline (g : Grammar) (c : Char) (cs : List Char) :
    (lexeme g c (cs ++ ['\n']) = lexeme g c cs ∧ (lexeme g c cs).2 ≤ cs.length) ∨
      lexeme g c cs = (none, cs.length) ∧
        ∃ n, cs.length ≤ n ∧ lexeme g c (cs ++ ['\n']) = (none, n) := by
  unfold lexeme
  split
  · rw [takeWhile_append_newline (by decide)]
    exact .inl ⟨rfl, (List.takeWhile_prefix _).length_le⟩
  split
  · rw [takeWhile_append_newline (by decide)]
    exact .inl ⟨rfl, (List.takeWhile_prefix _).length_le⟩
  split
  · rcases stringEnd_append_newline cs with hsame | ⟨hopen, hbroken⟩
    · rw [hsame]
      cases hend : stringEnd cs with
      | closed n =>
        obtain ⟨body, rest, rfl, rfl, -⟩ := exists_of_stringEnd hend
        refine .inl ⟨?_, by simp⟩
        simp only [List.append_assoc, List.take_left]
      | broken n => exact .inl ⟨rfl, le_of_stringEnd_broken hend⟩
      | unclosed => exact .inr ⟨rfl, _, by simp, rfl⟩
    · rw [hopen, hbroken]
      exact .inr ⟨rfl, _, Nat.le_refl _, rfl⟩
  split
  · rw [characterExtent_append_newline]
    cases hextent : characterExtent cs with
    | none => exact .inl ⟨rfl, Nat.zero_le _⟩
    | some n =>
      obtain ⟨body, rest, rfl, rfl, -⟩ := exists_of_characterExtent hextent
      refine .inl ⟨?_, by simp⟩
      simp only [List.append_assoc, List.take_left]
  split
  · rw [longestSymbol_append_newline]
    cases hsymbol : g.longestSymbol (c :: cs) with
    | none => exact .inl ⟨rfl, Nat.zero_le _⟩
    | some s =>
      have hlength := (longestAt_of_longestSymbol hsymbol).begins.length_le
      rw [String.length_toList, List.length_cons] at hlength
      exact .inl ⟨rfl, Nat.sub_le_of_le_add hlength⟩
  · exact .inl ⟨rfl, Nat.zero_le _⟩

theorem tokens_append_newline (g : Grammar) (cs : List Char) :
    tokens g (cs ++ ['\n']) = tokens g cs := by
  have hend : tokens g ['\n'] = [] := by
    have hdrop : lexeme g '\n' [] = (none, 0) := rfl
    rw [tokens, hdrop]
    dsimp only
    rw [List.drop_nil, tokens]
    rfl
  fun_induction tokens g cs with
  | case1 => exact hend
  | case2 c cs token n hl ih =>
    rw [List.cons_append, tokens]
    rcases lexeme_append_newline g c cs with ⟨hsame, hle⟩ | ⟨hopen, m, hm, hdropped⟩
    · rw [hl] at hle
      rw [hsame, hl]
      dsimp only
      rw [List.drop_append_of_le_length hle, ih]
    · obtain ⟨rfl, rfl⟩ := Prod.mk.inj (hl.symm.trans hopen)
      rw [hdropped]
      dsimp only
      rw [List.drop_append, List.drop_eq_nil_of_le hm, List.drop_length, List.nil_append]
      -- what is left is the line feed or nothing
      rcases Nat.eq_zero_or_pos (m - cs.length) with hzero | hpos
      · rw [hzero, List.drop_zero, hend, tokens]
      · rw [List.drop_eq_nil_of_le (by exact hpos)]

theorem tokens_mark (g : Grammar) (cs : List Char) : tokens g ('\ufeff' :: cs) = tokens g cs := by
  have hdrop : lexeme g '\ufeff' cs = (none, 0) := rfl
  rw [tokens, hdrop]
  rfl

end Scan

/-! ## Taking comments out -/

namespace Comment

theorem quotedExtent_cons {q c : Char} (hc : c ≠ '\\') (rest : List Char) :
    quotedExtent q (c :: rest) =
      if c = q then some 1 else if c = '\n' then none else (quotedExtent q rest).map (· + 1) := by
  rw [quotedExtent.eq_3 _ _ _ fun _ _ h => absurd h hc]
  simp [hc]

theorem quotedExtent_append_newline {q : Char} (hq : q = '"' ∨ q = '\x27') (cs : List Char) :
    quotedExtent q (cs ++ ['\n']) = quotedExtent q cs := by
  have hline : '\n' ≠ q := by rcases hq with rfl | rfl <;> decide
  have hslash : q ≠ '\\' := by rcases hq with rfl | rfl <;> decide
  fun_induction quotedExtent q cs with
  | case1 => rw [List.nil_append, quotedExtent_cons (by decide), if_neg hline, if_pos rfl]
  | case2 rest => rfl
  | case3 c rest hc ih => rw [List.cons_append, List.cons_append, quotedExtent, if_neg hc, ih]
  | case4 rest _ => rw [List.cons_append, quotedExtent_cons hslash, if_pos rfl]
  | case5 c rest hlast hcq hstop =>
    rcases hstop with rfl | rfl
    · -- a backslash that nothing follows
      cases rest with
      | nil => rfl
      | cons c rest => exact absurd rfl (hlast c rest rfl)
    · rw [List.cons_append, quotedExtent_cons (by decide), if_neg hcq, if_pos rfl]
  | case6 c rest _ hcq hstop ih =>
    obtain ⟨hb, hn⟩ := not_or.1 hstop
    rw [List.cons_append, quotedExtent_cons hb, if_neg hcq, if_neg hn, ih]

theorem le_of_quotedExtent {q : Char} {n : Nat} (h : quotedExtent q cs = some n) :
    n ≤ cs.length := by
  fun_induction quotedExtent q cs generalizing n with
  | case1 | case2 | case5 => cases h
  | case3 c rest hc ih =>
    obtain ⟨m, hm, rfl⟩ := Option.map_eq_some_iff.1 h
    exact Nat.add_le_add_right (ih hm) 2
  | case4 rest _ =>
    cases h
    exact Nat.succ_le_succ (Nat.zero_le _)
  | case6 c rest _ hcq hstop ih =>
    obtain ⟨m, hm, rfl⟩ := Option.map_eq_some_iff.1 h
    exact Nat.add_le_add_right (ih hm) 1

theorem blockExtent_append_newline (cs : List Char) :
    blockExtent (cs ++ ['\n']) = blockExtent cs := by
  fun_induction blockExtent cs with
  | case1 => rfl
  | case2 rest => rfl
  | case3 c rest hopen ih =>
    rw [List.cons_append, blockExtent.eq_3, ih]
    rintro tail rfl htail
    cases rest with
    | nil => cases htail
    | cons x rest =>
      obtain rfl : x = '/' := (List.cons.inj htail).1
      exact hopen rest rfl rfl

theorem le_of_blockExtent {n : Nat} (h : blockExtent cs = some n) : n ≤ cs.length := by
  fun_induction blockExtent cs generalizing n with
  | case1 => cases h
  | case2 rest =>
    cases h
    exact Nat.add_le_add_right (Nat.zero_le _) 2
  | case3 c rest _ ih =>
    obtain ⟨m, hm, rfl⟩ := Option.map_eq_some_iff.1 h
    exact Nat.add_le_add_right (ih hm) 1

theorem dropWhile_append_newline (cs : List Char) :
    (cs ++ ['\n']).dropWhile (fun c => decide (c ≠ '\n')) =
      cs.dropWhile (fun c => decide (c ≠ '\n')) ++ ['\n'] := by
  induction cs with
  | nil => rfl
  | cons c cs ih =>
    rw [List.cons_append, List.dropWhile_cons, List.dropWhile_cons]
    split
    · exact ih
    · rfl

theorem head?_append_newline {x : Char} (hx : x ≠ '\n') (cs : List Char) :
    (cs ++ ['\n']).head? = some x ↔ cs.head? = some x := by
  cases cs with
  | nil => simp [hx.symm]
  | cons c cs => rfl

/-- Comments end before the line feed, and so does what is kept. -/
theorem strip_append_newline (cs : List Char) : strip (cs ++ ['\n']) = strip cs ++ ['\n'] := by
  have hopens : ∀ {c x : Char} {cs : List Char}, x ≠ '\n' →
      (c = '/' ∧ (cs ++ ['\n']).head? = some x ↔ c = '/' ∧ cs.head? = some x) := by
    intro c x cs hx
    rw [head?_append_newline hx]
  fun_induction strip cs with
  | case1 => rw [List.nil_append, strip_cons_plain (by decide) (by decide) (by decide), strip]
  | case2 c cs hq n hextent ih =>
    have hle := le_of_quotedExtent hextent
    rw [List.cons_append, strip, if_pos hq, quotedExtent_append_newline hq, hextent]
    dsimp only
    rw [List.take_append_of_le_length hle, List.drop_append_of_le_length hle, ih]
    simp
  | case3 c cs hq hextent ih =>
    rw [List.cons_append, strip, if_pos hq, quotedExtent_append_newline hq, hextent]
    dsimp only
    rw [ih, List.cons_append]
  | case4 c cs hq hline ih =>
    rw [List.cons_append, strip, if_neg hq, if_pos ((hopens (by decide)).2 hline),
      dropWhile_append_newline, ih, List.cons_append]
  | case5 c cs hq hline hblock n hextent ih =>
    obtain ⟨rest, rfl⟩ := List.head?_eq_some_iff.1 hblock.2
    have hle : n + 1 ≤ ('*' :: rest).length := Nat.succ_le_succ (le_of_blockExtent hextent)
    have hmore : blockExtent ('*' :: rest ++ ['\n']).tail = some n :=
      (blockExtent_append_newline rest).trans hextent
    rw [List.cons_append, strip, if_neg hq, if_neg ((hopens (by decide)).not.2 hline),
      if_pos ((hopens (by decide)).2 hblock), hmore]
    dsimp only
    rw [List.drop_append_of_le_length hle, ih, List.cons_append]
  | case6 c cs hq hline hblock hextent ih =>
    obtain ⟨rest, rfl⟩ := List.head?_eq_some_iff.1 hblock.2
    have hmore : blockExtent ('*' :: rest ++ ['\n']).tail = none :=
      (blockExtent_append_newline rest).trans hextent
    rw [List.cons_append, strip, if_neg hq, if_neg ((hopens (by decide)).not.2 hline),
      if_pos ((hopens (by decide)).2 hblock), hmore]
    dsimp only
    rw [ih, List.cons_append]
  | case7 c cs hq hline hblock ih =>
    rw [List.cons_append, strip, if_neg hq, if_neg ((hopens (by decide)).not.2 hline),
      if_neg ((hopens (by decide)).not.2 hblock), ih, List.cons_append]

theorem strip_mark (cs : List Char) : strip ('\ufeff' :: cs) = '\ufeff' :: strip cs :=
  strip_cons_plain (by decide) (by decide) fun h => absurd h (by decide)

end Comment

namespace Grammar

theorem tokenize_append_newline (g : Grammar) (text : String) :
    g.tokenize (text ++ "\n") = g.tokenize text := by
  have hscanned : g.scannedText (text ++ "\n") = g.scannedText text ++ ['\n'] := by
    have hlist : (text ++ "\n").toList = text.toList ++ ['\n'] := String.toList_append
    unfold scannedText
    rw [hlist]
    split
    · exact Comment.strip_append_newline text.toList
    · rfl
  rw [tokenize, tokenize, hscanned, Scan.tokens_append_newline]

theorem tokenize_mark (g : Grammar) (text : String) :
    g.tokenize ("\ufeff" ++ text) = g.tokenize text := by
  have hscanned : g.scannedText ("\ufeff" ++ text) = '\ufeff' :: g.scannedText text := by
    have hlist : ("\ufeff" ++ text).toList = '\ufeff' :: text.toList := by
      rw [String.toList_append]
      rfl
    unfold scannedText
    rw [hlist]
    split
    · exact Comment.strip_mark text.toList
    · rfl
  rw [tokenize, tokenize, hscanned, Scan.tokens_mark]

end Grammar

end GrowthOrder
