import GrowthOrder.Token.Scan

/-!
# The lexical grammar

What the scanner cuts off is a lexeme: a word, a number, a quoted literal, the longest symbol of the
grammar at that place, or a mark that begins no symbol. The text of the token is what is cut off,
and whether it is a lexeme does not depend on what stood around it. Conversely the scanner cuts a
lexeme off as a whole wherever a blank or the end of the text follows it, since no word, number or
symbol holds a blank and a literal ends at its own mark.
-/
namespace GrowthOrder

/-- The characters behind an opening mark, up to and including the closing one: an escape is a
backslash with any character but a line feed. -/
inductive QuotedBody (q : Char) : List Char → Prop
  | close : QuotedBody q [q]
  | escape {c : Char} {cs : List Char} :
      c ≠ '\n' → QuotedBody q cs → QuotedBody q ('\\' :: c :: cs)
  | char {c : Char} {cs : List Char} :
      c ≠ q → c ≠ '\\' → QuotedBody q cs → QuotedBody q (c :: cs)

/-- The characters behind the opening mark of a character literal. -/
inductive CharacterBody : List Char → Prop
  | escape {c : Char} : c ≠ '\n' → CharacterBody ['\\', c, '\x27']
  | char {c : Char} : c ≠ '\x27' → c ≠ '\\' → CharacterBody [c, '\x27']

theorem CharacterBody.quotedBody {cs : List Char} (h : CharacterBody cs) :
    QuotedBody '\x27' cs := by
  cases h with
  | escape hc => exact .escape hc .close
  | char hq hb => exact .char hq hb .close

/-- The tokens of a grammar, by their texts. -/
inductive Lexeme (g : Grammar) : Token → Prop
  | word {c : Char} {cs : List Char} : Scan.isWordStart c → (∀ x ∈ cs, Scan.isWordRest x) →
      Lexeme g (Scan.word g (String.ofList (c :: cs)))
  | number {c : Char} {cs : List Char} : c.isDigit → (∀ x ∈ cs, x.isDigit) →
      Lexeme g ⟨.literal, String.ofList (c :: cs)⟩
  | string {cs : List Char} : QuotedBody '"' cs → Lexeme g ⟨.literal, String.ofList ('"' :: cs)⟩
  | character {cs : List Char} : CharacterBody cs →
      Lexeme g ⟨.literal, String.ofList ('\x27' :: cs)⟩
  | symbol {s : String × SymbolKind} : s ∈ g.symbols → Lexeme g ⟨s.2.tokenKind, s.1⟩
  | stray {c : Char} : Scan.isPunctuation c → g.longestSymbol [c] = none →
      Lexeme g ⟨.unknown, String.ofList [c]⟩

namespace Scan

/-- Nothing follows, or a blank does. -/
def AtGap (rest : List Char) : Prop :=
  ∀ c ∈ rest.head?, c = ' '

variable {g : Grammar} {t : Token} {cs rest : List Char}

/-! ## Words and numbers -/

theorem takeWhile_append_gap {p : Char → Bool} (hp : ∀ x ∈ cs, p x) (hblank : p ' ' = false)
    (hrest : AtGap rest) : (cs ++ rest).takeWhile p = cs := by
  have hstop : rest.takeWhile p = [] := by
    cases rest with
    | nil => rfl
    | cons c rest =>
      obtain rfl := hrest c rfl
      rw [List.takeWhile_cons, hblank]
      rfl
  rw [List.takeWhile_append_of_pos hp, hstop, List.append_nil]

theorem isWordStart_of_isDigit {c : Char} (h : c.isDigit) : isWordStart c = false := by
  have hcode : 48 ≤ c.toNat ∧ c.toNat ≤ 57 := by
    simpa [Char.isDigit, UInt32.le_iff_toNat_le] using h
  have hupper : c.isUpper = false := by
    refine decide_eq_false fun ⟨hlow, _⟩ => ?_
    have hlow : 65 ≤ c.toNat := hlow
    omega
  have hlower : c.isLower = false := by
    refine Bool.and_eq_false_imp.2 fun hlow => ?_
    have hlow : 97 ≤ c.toNat := of_decide_eq_true hlow
    omega
  have halpha : c.isAlpha = false := Bool.or_eq_false_iff.2 ⟨hupper, hlower⟩
  have hunder : c ≠ '_' := by
    rintro rfl
    cases h
  simp [isWordStart, halpha, hunder]

theorem isWordRest_of_isWordStart {c : Char} (h : isWordStart c) : isWordRest c := by
  rcases Bool.or_eq_true_iff.1 h with h | h
  · simp [isWordRest, Char.isAlphanum, h]
  · simp [isWordRest, h]

theorem isWordRest_of_isDigit {c : Char} (h : c.isDigit) : isWordRest c := by
  simp [isWordRest, Char.isAlphanum, h]

theorem text_word (g : Grammar) (text : String) : (word g text).text = text := by
  unfold word
  split <;> rfl

/-! ## Quoted literals -/

theorem stringEnd_cons {c : Char} (hc : c ≠ '\\') (rest : List Char) :
    stringEnd (c :: rest) = if c = '"' then .closed 1 else (stringEnd rest).shift 1 := by
  rw [stringEnd.eq_3 _ _ fun _ _ h => absurd h hc, if_neg hc]

theorem stringEnd_append (h : QuotedBody '"' cs) (rest : List Char) :
    stringEnd (cs ++ rest) = .closed cs.length := by
  induction h with
  | close => rfl
  | escape hc _ ih =>
    rw [List.cons_append, List.cons_append, stringEnd, if_neg hc, ih]
    rfl
  | char hq hb _ ih =>
    rw [List.cons_append, stringEnd_cons hb, if_neg hq, ih]
    rfl

theorem exists_of_shift_eq_closed {e : StringEnd} {k n : Nat} (h : e.shift k = .closed n) :
    ∃ m, e = .closed m ∧ n = m + k := by
  cases e with
  | closed m => exact ⟨m, rfl, (StringEnd.closed.inj h).symm⟩
  | broken m => cases h
  | unclosed => cases h

/-- A string that is closed ends behind its closing quote. -/
theorem exists_of_stringEnd {n : Nat} (h : stringEnd cs = .closed n) :
    ∃ body rest, cs = body ++ rest ∧ body.length = n ∧ QuotedBody '"' body := by
  fun_induction stringEnd cs generalizing n with
  | case1 => cases h
  | case2 => cases h
  | case3 c cs hc ih =>
    obtain ⟨m, hm, rfl⟩ := exists_of_shift_eq_closed h
    obtain ⟨body, rest, rfl, rfl, hbody⟩ := ih hm
    exact ⟨'\\' :: c :: body, rest, rfl, rfl, .escape hc hbody⟩
  | case4 cs =>
    cases h
    exact ⟨['"'], cs, rfl, rfl, .close⟩
  | case5 => cases h
  | case6 c cs _ hq hb ih =>
    obtain ⟨m, hm, rfl⟩ := exists_of_shift_eq_closed h
    obtain ⟨body, rest, rfl, rfl, hbody⟩ := ih hm
    exact ⟨c :: body, rest, rfl, rfl, .char hq hb hbody⟩

theorem characterExtent_append (h : CharacterBody cs) (rest : List Char) :
    characterExtent (cs ++ rest) = some cs.length := by
  cases h with
  | escape hc => exact if_neg hc
  | @char c hq hb =>
    have hplain : ¬ (c = '\x27' ∨ c = '\\') := not_or.2 ⟨hq, hb⟩
    change characterExtent (c :: '\x27' :: rest) = some 2
    rw [characterExtent.eq_2 _ _ fun _ h => absurd h hb, if_neg hplain]

theorem exists_of_characterExtent {n : Nat} (h : characterExtent cs = some n) :
    ∃ body rest, cs = body ++ rest ∧ body.length = n ∧ CharacterBody body := by
  unfold characterExtent at h
  split at h
  · next c rest =>
    split at h
    · cases h
    · next hc =>
      cases h
      exact ⟨_, rest, rfl, rfl, .escape hc⟩
  · next c rest _ =>
    split at h
    · cases h
    · next hc =>
      cases h
      exact ⟨_, rest, rfl, rfl, .char (mt .inl hc) (mt .inr hc)⟩
  · cases h

/-! ## Symbols -/

/-- Where a text goes on with a character that the prefix does not hold, or ends, the prefix does
not reach beyond this place. -/
theorem isPrefixOf_append {s : List Char} {x : Char} (hs : x ∉ s)
    (hrest : ∀ c ∈ rest.head?, c = x) : s.isPrefixOf (cs ++ rest) = s.isPrefixOf cs := by
  induction s generalizing cs with
  | nil => rfl
  | cons c s ih =>
    rw [List.mem_cons, not_or] at hs
    cases cs with
    | nil =>
      cases rest with
      | nil => rfl
      | cons y rest =>
        obtain rfl := hrest y rfl
        simp [List.isPrefixOf, Ne.symm hs.1]
    | cons y cs => simp [List.isPrefixOf, ih hs.2]

theorem longestSymbol_append {x : Char} (hx : ∀ s ∈ g.symbols, x ∉ s.1.toList)
    (hrest : ∀ c ∈ rest.head?, c = x) : g.longestSymbol (cs ++ rest) = g.longestSymbol cs := by
  unfold Grammar.longestSymbol
  rw [List.filter_congr fun s hs => isPrefixOf_append (hx s hs) hrest]

theorem longestSymbol_append_gap (hrest : AtGap rest) :
    g.longestSymbol (cs ++ rest) = g.longestSymbol cs := by
  have hblank : ∀ s ∈ g.symbols, ' ' ∉ s.1.toList := by cases g <;> decide
  exact longestSymbol_append hblank hrest

theorem longestSymbol_symbol {s : String × SymbolKind} (h : s ∈ g.symbols) :
    g.longestSymbol s.1.toList = some s := by
  have hall : ∀ s ∈ g.symbols, g.longestSymbol s.1.toList = some s := by cases g <;> decide
  exact hall s h

/-- A choice among the items of a list, one after the other, is one of them. -/
theorem mem_of_foldl_eq_some {α : Type} {step : Option α → α → Option α}
    (hstep : ∀ best x y, step best x = some y → best = some y ∨ x = y) (l : List α)
    (best : Option α) {y : α} (h : l.foldl step best = some y) : best = some y ∨ y ∈ l := by
  induction l generalizing best with
  | nil => exact .inl h
  | cons x l ih =>
    rcases ih _ h with hx | hl
    · rcases hstep best x y hx with hb | rfl
      · exact .inl hb
      · exact .inr List.mem_cons_self
    · exact .inr (List.mem_cons_of_mem _ hl)

/-- A choice that never gets smaller ends above all items. -/
theorem le_of_foldl_eq_some {α : Type} {step : Option α → α → Option α} {size : α → Nat}
    (hstep : ∀ best x, ∃ y, step best x = some y ∧ size x ≤ size y ∧
      ∀ b, best = some b → size b ≤ size y) (l : List α) (best : Option α) {y : α}
    (h : l.foldl step best = some y) :
    (∀ b, best = some b → size b ≤ size y) ∧ ∀ x ∈ l, size x ≤ size y := by
  induction l generalizing best with
  | nil =>
    refine ⟨fun b hb => ?_, fun x hx => absurd hx List.not_mem_nil⟩
    obtain rfl : b = y := Option.some.inj (hb.symm.trans h)
    exact Nat.le_refl _
  | cons x l ih =>
    obtain ⟨z, hz, hxz, hbz⟩ := hstep best x
    obtain ⟨hzy, hl⟩ := ih _ h
    have hle : size z ≤ size y := hzy z hz
    refine ⟨fun b hb => Nat.le_trans (hbz b hb) hle, fun u hu => ?_⟩
    rcases List.mem_cons.1 hu with rfl | hu
    · exact Nat.le_trans hxz hle
    · exact hl u hu

/-- The symbol begins the text, and no symbol that begins it is longer. -/
structure LongestAt (g : Grammar) (text : List Char) (s : String × SymbolKind) : Prop where
  mem : s ∈ g.symbols
  begins : s.1.toList <+: text
  longest : ∀ u ∈ g.symbols, u.1.toList <+: text → u.1.length ≤ s.1.length

theorem longestAt_of_longestSymbol {text : List Char} {s : String × SymbolKind}
    (h : g.longestSymbol text = some s) : LongestAt g text s := by
  have hchosen : none = some s ∨ s ∈ g.symbols.filter fun s => s.1.toList.isPrefixOf text := by
    refine mem_of_foldl_eq_some (fun best x y hy => ?_) _ none h
    cases best with
    | none => exact .inr (Option.some.inj hy)
    | some b =>
      dsimp only at hy
      split at hy
      · exact .inr (Option.some.inj hy)
      · exact .inl hy
  have hmost : ∀ u ∈ g.symbols.filter fun s => s.1.toList.isPrefixOf text,
      u.1.length ≤ s.1.length := by
    refine (le_of_foldl_eq_some (fun best x => ?_) _ none h).2
    cases best with
    | none => exact ⟨x, rfl, Nat.le_refl _, fun b hb => absurd hb (by simp)⟩
    | some b =>
      by_cases hle : b.1.length ≤ x.1.length
      · refine ⟨x, if_pos hle, Nat.le_refl _, fun b' hb => ?_⟩
        obtain rfl := Option.some.inj hb
        exact hle
      · refine ⟨b, if_neg hle, Nat.le_of_not_le hle, fun b' hb => ?_⟩
        obtain rfl := Option.some.inj hb
        exact Nat.le_refl _
  rcases hchosen with hn | hmem
  · cases hn
  · obtain ⟨hs, hpre⟩ := List.mem_filter.1 hmem
    refine ⟨hs, List.isPrefixOf_iff_prefix.1 hpre, fun u hu hbegins => ?_⟩
    exact hmost u (List.mem_filter.2 ⟨hu, List.isPrefixOf_iff_prefix.2 hbegins⟩)

theorem eq_nil_of_foldl_eq_none {α : Type} {step : Option α → α → Option α}
    (hstep : ∀ best x, (step best x).isSome) {l : List α} (h : l.foldl step none = none) :
    l = [] := by
  cases List.eq_nil_or_concat l with
  | inl hnil => exact hnil
  | inr hlast =>
    obtain ⟨init, x, rfl⟩ := hlast
    have hsome := hstep (init.foldl step none) x
    rw [List.concat_eq_append, List.foldl_append] at h
    change step _ x = none at h
    rw [h] at hsome
    cases hsome

/-- Where no symbol begins, none begins before a gap either. -/
theorem longestSymbol_singleton {c : Char} (h : g.longestSymbol (c :: cs) = none) :
    g.longestSymbol [c] = none := by
  have hnil : (g.symbols.filter fun s => s.1.toList.isPrefixOf (c :: cs)) = [] := by
    refine eq_nil_of_foldl_eq_none (fun best x => ?_) h
    cases best with
    | none => rfl
    | some b =>
      dsimp only
      split <;> rfl
  have hnone : (g.symbols.filter fun s => s.1.toList.isPrefixOf [c]) = [] := by
    rw [List.filter_eq_nil_iff] at hnil ⊢
    intro s hs hpre
    apply hnil s hs
    rw [List.isPrefixOf_iff_prefix] at hpre ⊢
    exact hpre.trans (List.prefix_append [c] cs)
  rw [Grammar.longestSymbol, hnone]
  rfl

/-- What can be seen at each mark holds of all of them. -/
theorem of_isPunctuation {p : Char → Bool} {c : Char} (h : isPunctuation c)
    (hall : ['=', '!', '<', '>', '+', '-', '*', '/', '%', '&', '|', '^', '~', '(', ')', '\x7b',
      '\x7d', '[', ']', ';', ',', '.', ':'].all p) : p c :=
  List.all_eq_true.1 hall c (List.contains_iff_mem.1 h)

theorem not_of_isPunctuation {c : Char} (h : isPunctuation c) :
    isWordStart c = false ∧ c.isDigit = false ∧ c ≠ '"' ∧ c ≠ '\x27' := by
  have hc := of_isPunctuation (p := fun c => !isWordStart c && !c.isDigit && c ≠ '"' &&
    c ≠ '\x27') h rfl
  simpa [and_assoc] using hc

/-- The first character of a symbol. -/
theorem exists_cons_of_symbol {s : String × SymbolKind} (h : s ∈ g.symbols) :
    ∃ c cs, s.1.toList = c :: cs ∧ isPunctuation c := by
  have hall : ∀ s ∈ g.symbols, s.1.toList.head?.any isPunctuation := by cases g <;> decide
  have hs := hall s h
  cases hlist : s.1.toList with
  | nil =>
    rw [hlist] at hs
    cases hs
  | cons c cs =>
    rw [hlist] at hs
    exact ⟨c, cs, rfl, hs⟩

/-! ## Cutting off a lexeme -/

theorem lexeme_string (h : QuotedBody '"' cs) (rest : List Char) :
    lexeme g '"' (cs ++ rest) = (some ⟨.literal, String.ofList ('"' :: cs)⟩, cs.length) := by
  rw [lexeme, if_neg (by decide), if_neg (by decide), if_pos rfl, stringEnd_append h]
  simp

theorem lexeme_character (h : CharacterBody cs) (rest : List Char) :
    lexeme g '\x27' (cs ++ rest) = (some ⟨.literal, String.ofList ('\x27' :: cs)⟩, cs.length) := by
  rw [lexeme, if_neg (by decide), if_neg (by decide), if_neg (by decide), if_pos rfl,
    characterExtent_append h]
  simp

/-- A lexeme in front of a gap is cut off as a whole. -/
theorem lexeme_append_gap (h : Lexeme g t) (hrest : AtGap rest) :
    ∃ c cs, t.text.toList = c :: cs ∧ lexeme g c (cs ++ rest) = (some t, cs.length) := by
  cases h with
  | @word c cs hc hcs =>
    refine ⟨c, cs, ?_, ?_⟩
    · rw [text_word, String.toList_ofList]
    · rw [lexeme, if_pos hc, takeWhile_append_gap hcs (by decide) hrest]
  | @number c cs hc hcs =>
    refine ⟨c, cs, String.toList_ofList, ?_⟩
    rw [lexeme, if_neg (by simp [isWordStart_of_isDigit hc]), if_pos hc,
      takeWhile_append_gap hcs (by decide) hrest]
  | @string cs hcs => exact ⟨'"', cs, String.toList_ofList, lexeme_string hcs rest⟩
  | @character cs hcs => exact ⟨'\x27', cs, String.toList_ofList, lexeme_character hcs rest⟩
  | @symbol s hs =>
    obtain ⟨c, cs, hlist, hc⟩ := exists_cons_of_symbol hs
    obtain ⟨hword, hdigit, hq, hq'⟩ := not_of_isPunctuation hc
    have hlongest : g.longestSymbol (c :: (cs ++ rest)) = some s := by
      rw [← List.cons_append, ← hlist, longestSymbol_append_gap hrest, longestSymbol_symbol hs]
    have hlength : s.1.length - 1 = cs.length := by
      rw [← String.length_toList, hlist]
      rfl
    refine ⟨c, cs, hlist, ?_⟩
    rw [lexeme, if_neg (by simp [hword]), if_neg (by simp [hdigit]), if_neg hq, if_neg hq',
      if_pos hc, hlongest]
    exact congrArg _ hlength
  | @stray c hc hnone =>
    obtain ⟨hword, hdigit, hq, hq'⟩ := not_of_isPunctuation hc
    have hlongest : g.longestSymbol ([c] ++ rest) = none := by
      rw [longestSymbol_append_gap hrest, hnone]
    refine ⟨c, [], String.toList_ofList, ?_⟩
    rw [List.nil_append, lexeme, if_neg (by simp [hword]), if_neg (by simp [hdigit]), if_neg hq,
      if_neg hq', if_pos hc, ← List.singleton_append, hlongest]
    rfl

/-- A token is cut off the beginning of a text: it is a lexeme, its text and what is left over make
up the whole, and in the place of a symbol there is no longer one. -/
structure Cut (g : Grammar) (text : List Char) (t : Token) (rest : List Char) : Prop where
  lexeme : Lexeme g t
  text_eq : text = t.text.toList ++ rest
  longest : t.kind = .operator ∨ t.kind = .separator →
    ∀ u ∈ g.symbols, u.1.toList <+: text → u.1.length ≤ t.text.length

theorem not_symbol_word (g : Grammar) (text : String) :
    ¬ ((word g text).kind = .operator ∨ (word g text).kind = .separator) := by
  unfold word
  split <;> simp

theorem LongestAt.cut {c : Char} {s : String × SymbolKind} (h : LongestAt g (c :: cs) s) :
    Cut g (c :: cs) ⟨s.2.tokenKind, s.1⟩ (cs.drop (s.1.length - 1)) := by
  obtain ⟨x, xs, htext, -⟩ := exists_cons_of_symbol h.mem
  have hlength : s.1.length = xs.length + 1 := by
    rw [← String.length_toList, htext]
    rfl
  have hwhole := List.prefix_iff_eq_append.1 h.begins
  rw [String.length_toList, hlength, List.drop_succ_cons] at hwhole
  rw [hlength, Nat.add_sub_cancel]
  exact ⟨.symbol h.mem, hwhole.symm, fun _ => h.longest⟩

theorem cut_of_lexeme {c : Char} {n : Nat} (h : lexeme g c cs = (some t, n)) :
    Cut g (c :: cs) t (cs.drop n) := by
  have hrun : ∀ p : Char → Bool, cs = cs.takeWhile p ++ cs.drop (cs.takeWhile p).length :=
    fun p => (List.prefix_iff_eq_append.1 (List.takeWhile_prefix p)).symm
  unfold lexeme at h
  split at h
  · next hc =>
    cases h
    refine ⟨.word hc (List.all_eq_true.1 List.all_takeWhile), ?_,
      fun hk => absurd hk (not_symbol_word _ _)⟩
    rw [text_word, String.toList_ofList, List.cons_append, ← hrun]
  · split at h
    · next hd =>
      cases h
      refine ⟨.number hd (List.all_eq_true.1 List.all_takeWhile), ?_, by simp⟩
      rw [String.toList_ofList, List.cons_append, ← hrun]
    · split at h
      · next hq =>
        subst hq
        split at h
        · next n hend =>
          cases h
          obtain ⟨body, rest, rfl, rfl, hbody⟩ := exists_of_stringEnd hend
          rw [List.take_left, List.drop_left]
          exact ⟨.string hbody, by rw [String.toList_ofList, List.cons_append], by simp⟩
        · cases h
        · cases h
      · split at h
        · next hq =>
          subst hq
          split at h
          · next n hextent =>
            cases h
            obtain ⟨body, rest, rfl, rfl, hbody⟩ := exists_of_characterExtent hextent
            rw [List.take_left, List.drop_left]
            exact ⟨.character hbody, by rw [String.toList_ofList, List.cons_append], by simp⟩
          · cases h
        · split at h
          · next hp =>
            split at h
            · next text kind hs =>
              cases h
              exact (longestAt_of_longestSymbol hs).cut
            · next hs =>
              cases h
              exact ⟨.stray hp (longestSymbol_singleton hs), by simp, by simp⟩
          · cases h

theorem lexeme_of_mem_tokens (h : t ∈ tokens g cs) : Lexeme g t := by
  fun_induction tokens g cs with
  | case1 => cases h
  | case2 c cs token n hl ih =>
    rcases List.mem_append.1 h with h | h
    · obtain rfl := Option.mem_toList.1 h
      exact (cut_of_lexeme hl).lexeme
    · exact ih h

end Scan

end GrowthOrder
