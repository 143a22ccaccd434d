import GrowthOrder.Construct
import GrowthOrder.Estimate.Decrement
import GrowthOrder.Proofs.Token.Lexemes
import Mathlib.Data.List.Infix
import Mathlib.Data.List.TakeWhile

/-!
# Decreased arguments in the text of a call

A call is judged by its text. The text is made of pieces, words and symbols, between which a blank
may stand. As long as no two words touch, every word of the text is a piece, so the search for
`n - 1` in the text finds what stands in three pieces one after the other.
-/
namespace GrowthOrder

namespace Decrement

open Text

/-- Characters of words only, or neither characters of words nor blanks. -/
def IsUniform (word : Bool) (cs : List Char) : Prop :=
  cs ≠ [] ∧ ∀ c ∈ cs, isWordChar c = word ∧ isBlank c = false

abbrev IsWord := IsUniform true

abbrev IsSymbol := IsUniform false

/-- A piece of a text, and whether a blank stands behind it. -/
structure Piece where
  chars : List Char
  spaced : Bool

/-- What follows, behind a blank or not. -/
def behind (spaced : Bool) (tail : List Char) : List Char :=
  if spaced then ' ' :: tail else tail

/-- The text of some pieces and the parenthesis behind them. -/
def text : List Piece → List Char
  | [] => [')']
  | p :: rest => p.chars ++ behind p.spaced (text rest)

/-- Every piece is a word or a symbol, and no word touches a word. -/
def Separated : List Piece → Prop
  | [] => True
  | p :: rest =>
    (IsSymbol p.chars ∨ IsWord p.chars ∧
      (p.spaced = false → ∀ q ∈ rest.head?, IsSymbol q.chars)) ∧ Separated rest

variable {ps rest : List Piece} {p : Piece} {cs tail : List Char} {c : Char} {inWord : Bool}

@[simp] theorem behind_false (tail : List Char) : behind false tail = tail := rfl

@[simp] theorem behind_true (tail : List Char) : behind true tail = ' ' :: tail := rfl

theorem behind_append (spaced : Bool) (cs tail : List Char) :
    behind spaced (cs ++ tail) = behind spaced cs ++ tail := by
  cases spaced <;> rfl

/-! ## The characters of a text -/

/-- Below the accented letters only digits, letters and the underscore are in words. -/
theorem isWordChar_eq_any (h : c.toNat < 128) : isWordChar c =
    (wordRanges.take 4).any fun (first, last) => first ≤ c.toNat && c.toNat ≤ last := by
  have hfar : ∀ r ∈ wordRanges.drop 4, 128 ≤ r.1 := by decide +kernel
  have hnone : (wordRanges.drop 4).any (fun (first, last) =>
      first ≤ c.toNat && c.toNat ≤ last) = false := by
    refine List.any_eq_false.2 fun r hr => ?_
    have hfirst := hfar r hr
    have hnot : ¬ r.1 ≤ c.toNat := by omega
    simp [hnot]
  rw [isWordChar, ← List.take_append_drop 4 wordRanges, List.any_append, hnone, Bool.or_false]
  rfl

/-- A character that is seen to be in no word and no blank without the table of letters. -/
def isMark (c : Char) : Bool :=
  c.toNat < 128 && !isBlank c && !(wordRanges.take 4).any fun (first, last) =>
    first ≤ c.toNat && c.toNat ≤ last

theorem of_isMark (h : isMark c) : isWordChar c = false ∧ isBlank c = false := by
  obtain ⟨hlow, hword⟩ := Bool.and_eq_true_iff.1 h
  obtain ⟨hcode, hblank⟩ := Bool.and_eq_true_iff.1 hlow
  rw [Bool.not_eq_true'] at hblank hword
  exact ⟨(isWordChar_eq_any (of_decide_eq_true hcode)).trans hword, hblank⟩

theorem isSymbol_of_isMark (hne : cs ≠ []) (h : cs.all isMark) : IsSymbol cs :=
  ⟨hne, fun c hc => of_isMark (List.all_eq_true.1 h c hc)⟩

theorem isWordChar_blank : isWordChar ' ' = false :=
  isWordChar_eq_any (by decide)

theorem isWordChar_minus : isWordChar '-' = false :=
  (of_isMark rfl).1

theorem isWordChar_open : isWordChar '(' = false :=
  (of_isMark rfl).1

theorem isWordChar_close : isWordChar ')' = false :=
  (of_isMark rfl).1

theorem isSymbol_open : IsSymbol ['('] :=
  isSymbol_of_isMark (List.cons_ne_nil _ _) rfl

theorem isSymbol_close : IsSymbol [')'] :=
  isSymbol_of_isMark (List.cons_ne_nil _ _) rfl

theorem exists_isUniform (h : Separated (p :: rest)) : ∃ word, IsUniform word p.chars := by
  rcases h.1 with hsymbol | ⟨hword, -⟩
  · exact ⟨false, hsymbol⟩
  · exact ⟨true, hword⟩

theorem exists_cons (h : Separated (p :: rest)) :
    ∃ c cs, p.chars = c :: cs ∧ isBlank c = false := by
  obtain ⟨word, hne, hall⟩ := exists_isUniform h
  cases hp : p.chars with
  | nil => exact absurd hp hne
  | cons c cs => exact ⟨c, cs, rfl, (hall c (hp ▸ List.mem_cons_self)).2⟩

theorem ne_newline (h : isBlank c = false) : c ≠ '\n' := by
  rintro rfl
  cases h

theorem dropWhile_text (h : Separated ps) : (text ps).dropWhile isBlank = text ps := by
  cases ps with
  | nil => rfl
  | cons p rest =>
    obtain ⟨c, cs, hp, hc⟩ := exists_cons h
    rw [text, hp, List.cons_append, List.dropWhile_cons, hc]
    rfl

theorem dropWhile_behind (h : Separated rest) (spaced : Bool) :
    (behind spaced (text rest)).dropWhile isBlank = text rest := by
  cases spaced with
  | false => exact dropWhile_text h
  | true =>
    have hblank : isBlank ' ' = true := rfl
    show (' ' :: text rest).dropWhile isBlank = text rest
    rw [List.dropWhile_cons, hblank]
    exact dropWhile_text h

/-- The whole text stands on one line, and a parenthesis closes at its end. -/
theorem line_text (h : Separated ps) : (∀ c ∈ text ps, c ≠ '\n') ∧ ')' ∈ text ps := by
  induction ps with
  | nil => exact ⟨List.forall_mem_singleton.2 (by decide), List.mem_singleton.2 rfl⟩
  | cons p rest ih =>
    obtain ⟨hline, hclose⟩ := ih h.2
    obtain ⟨word, -, hall⟩ := exists_isUniform h
    have hchars : ∀ c ∈ p.chars, c ≠ '\n' := fun c hc => ne_newline (hall c hc).2
    rw [text]
    cases p.spaced with
    | true =>
      refine ⟨List.forall_mem_append.2 ⟨hchars, List.forall_mem_cons.2 ⟨by decide, hline⟩⟩, ?_⟩
      exact List.mem_append_right _ (List.mem_cons_of_mem _ hclose)
    | false =>
      exact ⟨List.forall_mem_append.2 ⟨hchars, hline⟩, List.mem_append_right _ hclose⟩

/-! ## Steps of the search -/

theorem startsHere_of_ne (h : c ≠ 'n') : startsHere (c :: tail) = false := by
  unfold startsHere
  split
  · next heq => exact absurd (List.cons.inj heq).1 h
  · rfl

theorem search_cons (hc : c ≠ '\n') : search true inWord (c :: tail) =
    (!inWord && startsHere (c :: tail) || search true (isWordChar c) tail) := by
  rw [search]
  simp [hc]

/-- Nothing is found at a character that is in no word. -/
theorem search_mark (hword : isWordChar c = false) (hc : c ≠ '\n') :
    search true inWord (c :: tail) = search true false tail := by
  have hn : c ≠ 'n' := by
    rintro rfl
    cases hword
  rw [search_cons hc, startsHere_of_ne hn, Bool.and_false, Bool.false_or, hword]

theorem search_blank : search true inWord (' ' :: tail) = search true false tail :=
  search_mark isWordChar_blank (by decide)

theorem search_marks (h : ∀ c ∈ cs, isWordChar c = false ∧ isBlank c = false) :
    search true false (cs ++ tail) = search true false tail := by
  induction cs with
  | nil => rfl
  | cons c cs ih =>
    obtain ⟨⟨hword, hblank⟩, hrest⟩ := List.forall_mem_cons.1 h
    rw [List.cons_append, search_mark hword (ne_newline hblank), ih hrest]

theorem search_symbol (h : IsSymbol cs) :
    search true inWord (cs ++ tail) = search true false tail := by
  obtain ⟨hne, hall⟩ := h
  cases cs with
  | nil => exact absurd rfl hne
  | cons c cs =>
    obtain ⟨⟨hword, hblank⟩, hrest⟩ := List.forall_mem_cons.1 hall
    rw [List.cons_append, search_mark hword (ne_newline hblank), search_marks hrest]

/-- Nothing is found inside a word. -/
theorem search_word (h : ∀ c ∈ cs, isWordChar c = true ∧ isBlank c = false) :
    search true true (cs ++ tail) = search true true tail := by
  induction cs with
  | nil => rfl
  | cons c cs ih =>
    obtain ⟨⟨hword, hblank⟩, hrest⟩ := List.forall_mem_cons.1 h
    rw [List.cons_append, search_cons (ne_newline hblank), hword, ih hrest]
    rfl

/-- Behind a word comes a blank, a symbol or the parenthesis. -/
theorem search_behind (spaced : Bool)
    (htouch : spaced = false → ∀ q ∈ rest.head?, IsSymbol q.chars) :
    search true true (behind spaced (text rest)) =
      search true false (text rest) := by
  cases spaced with
  | true => exact search_blank
  | false =>
    show search true true (text rest) = search true false (text rest)
    cases rest with
    | nil => rw [text, search_mark isWordChar_close (by decide),
        search_mark isWordChar_close (by decide)]
    | cons q rest =>
      have hq := htouch rfl q rfl
      rw [text, search_symbol hq, search_symbol hq]

/-! ## What is found -/

theorem head_behind (spaced : Bool)
    (htouch : spaced = false → ∀ q ∈ rest.head?, IsSymbol q.chars) :
    (behind spaced (text rest)).head?.any isWordChar = false := by
  cases spaced with
  | true =>
    show (some ' ').any isWordChar = false
    rw [Option.any_some, isWordChar_blank]
  | false =>
    cases rest with
    | nil =>
      show (some ')').any isWordChar = false
      rw [Option.any_some, isWordChar_close]
    | cons q rest =>
      obtain ⟨hne, hall⟩ := htouch rfl q rfl
      show (text (q :: rest)).head?.any isWordChar = false
      cases hq : q.chars with
      | nil => exact absurd hq hne
      | cons c cs =>
        rw [text, hq]
        exact (hall c (hq ▸ List.mem_cons_self)).1

/-- The characters of a piece are of one kind. -/
theorem forall_of_chars_eq (h : Separated (p :: rest)) (hp : p.chars = c :: cs) :
    ∀ c' ∈ cs, isWordChar c' = isWordChar c ∧ isBlank c' = false := by
  obtain ⟨word, -, hall⟩ := exists_isUniform h
  rw [hp] at hall
  intro c' hc'
  obtain ⟨hword, hblank⟩ := hall c' (List.mem_cons_of_mem _ hc')
  exact ⟨hword.trans (hall c List.mem_cons_self).1.symm, hblank⟩

theorem touch_of_chars_eq (h : Separated (p :: rest)) (hp : p.chars = c :: cs)
    (hc : isWordChar c = true) : p.spaced = false → ∀ q ∈ rest.head?, IsSymbol q.chars := by
  rcases h.1 with ⟨-, hall⟩ | ⟨-, htouch⟩
  · rw [hp] at hall
    have hnot := (hall c List.mem_cons_self).1
    rw [hc] at hnot
    cases hnot
  · exact htouch

theorem text_of_chars_eq (hp : p.chars = [c]) :
    text (p :: rest) = c :: behind p.spaced (text rest) := by
  rw [text, hp]
  rfl

theorem exists_of_text_eq (h : Separated ps) (ht : text ps = c :: tail) (hc : c ≠ ')') :
    ∃ p rest cs, ps = p :: rest ∧ p.chars = c :: cs ∧
      tail = cs ++ behind p.spaced (text rest) := by
  cases ps with
  | nil => exact absurd (List.cons.inj ht).1.symm hc
  | cons p rest =>
    obtain ⟨c', cs, hp, -⟩ := exists_cons h
    rw [text, hp, List.cons_append] at ht
    obtain ⟨rfl, rfl⟩ := List.cons.inj ht
    exact ⟨p, rest, cs, rfl, hp, rfl⟩

/-- A character of the other kind behind the first one stands behind the piece. -/
theorem alone_of_dropWhile (h : Separated (p :: rest)) (hp : p.chars = c :: cs) {c' : Char}
    (hc : isWordChar c' ≠ isWordChar c)
    (hnext : (cs ++ behind p.spaced (text rest)).dropWhile isBlank =
      c' :: tail) : cs = [] ∧ text rest = c' :: tail := by
  cases cs with
  | nil => exact ⟨rfl, (dropWhile_behind h.2 p.spaced).symm.trans hnext⟩
  | cons x cs =>
    obtain ⟨hx, hblank⟩ := forall_of_chars_eq h hp x List.mem_cons_self
    rw [List.cons_append, List.dropWhile_cons, hblank] at hnext
    exact absurd ((List.cons.inj hnext).1 ▸ hx) hc

/-- No character of words behind the first one ends the piece. -/
theorem alone_of_head (h : Separated (p :: rest)) (hp : p.chars = c :: cs)
    (hc : isWordChar c = true)
    (hnext : (cs ++ behind p.spaced (text rest)).head?.any isWordChar =
      false) : cs = [] := by
  cases cs with
  | nil => rfl
  | cons x cs =>
    have hx := (forall_of_chars_eq h hp x List.mem_cons_self).1
    exact absurd ((hc.symm.trans hx.symm).trans hnext) (by decide)

theorem startsHere_iff : startsHere cs ↔ ∃ n minus one, cs = 'n' :: n ∧
    n.dropWhile isBlank = '-' :: minus ∧ minus.dropWhile isBlank = '1' :: one ∧
      one.head?.any isWordChar = false ∧ ')' ∈ one.takeWhile (· ≠ '\n') := by
  unfold startsHere
  constructor
  · intro h
    split at h
    · next n =>
      split at h
      · next minus hminus =>
        split at h
        · next one hone =>
          rw [Bool.and_eq_true, Bool.not_eq_true', List.contains_iff_mem] at h
          exact ⟨n, minus, one, rfl, hminus, hone, h.1, h.2⟩
        · cases h
      · cases h
    · cases h
  · rintro ⟨n, minus, one, rfl, hminus, hone, hword, hclose⟩
    simp only [hminus, hone]
    rw [Bool.and_eq_true, Bool.not_eq_true', List.contains_iff_mem]
    exact ⟨hword, hclose⟩

theorem startsHere_text (h : Separated ps) :
    startsHere (text ps) ↔ [['n'], ['-'], ['1']] <+: ps.map (·.chars) := by
  rw [startsHere_iff]
  constructor
  · rintro ⟨n, minus, one, hn, hminus, hone, hword, -⟩
    obtain ⟨p, ps₁, cs, rfl, hp, rfl⟩ := exists_of_text_eq h hn (by decide)
    have hother : isWordChar '-' ≠ isWordChar 'n' := by
      rw [isWordChar_minus]
      decide
    obtain ⟨rfl, hn'⟩ := alone_of_dropWhile h hp hother hminus
    obtain ⟨q, ps₂, cs, rfl, hq, rfl⟩ := exists_of_text_eq h.2 hn' (by decide)
    have hother : isWordChar '1' ≠ isWordChar '-' := by
      rw [isWordChar_minus]
      decide
    obtain ⟨rfl, hminus'⟩ := alone_of_dropWhile h.2 hq hother hone
    obtain ⟨r, ps₃, cs, rfl, hr, rfl⟩ := exists_of_text_eq h.2.2 hminus' (by decide)
    obtain rfl := alone_of_head h.2.2 hr (by decide) hword
    rw [List.map_cons, List.map_cons, List.map_cons, hp, hq, hr]
    exact ⟨ps₃.map (·.chars), rfl⟩
  · rintro ⟨tail, htail⟩
    obtain ⟨p, ps₁, rfl, hp, htail⟩ := List.map_eq_cons_iff.1 htail.symm
    obtain ⟨q, ps₂, rfl, hq, htail⟩ := List.map_eq_cons_iff.1 htail
    obtain ⟨r, ps₃, rfl, hr, -⟩ := List.map_eq_cons_iff.1 htail
    have hlast := touch_of_chars_eq h.2.2 hr (by decide)
    refine ⟨_, _, _, text_of_chars_eq hp, (dropWhile_behind h.2 _).trans (text_of_chars_eq hq),
      (dropWhile_behind h.2.2 _).trans (text_of_chars_eq hr), head_behind r.spaced hlast, ?_⟩
    obtain ⟨hline, hclose⟩ := line_text h.2.2
    rw [text_of_chars_eq hr] at hline hclose
    rw [List.takeWhile_eq_self_iff.2 fun c hc =>
      decide_eq_true (hline c (List.mem_cons_of_mem _ hc))]
    exact (List.mem_cons.1 hclose).resolve_left (by decide)

/-- In a text of separated pieces the search finds exactly three pieces. -/
theorem search_text (h : Separated ps) :
    search true false (text ps) ↔ [['n'], ['-'], ['1']] <:+: ps.map (·.chars) := by
  induction ps with
  | nil =>
    refine iff_of_false ?_ (by simp)
    rw [text, search_mark isWordChar_close (by decide)]
    exact Bool.false_ne_true
  | cons p rest ih =>
    have hstep : search true false (text (p :: rest)) =
        (startsHere (text (p :: rest)) || search true false (text rest)) := by
      obtain ⟨c, cs, hp, hblank⟩ := exists_cons h
      have hall := forall_of_chars_eq h hp
      rw [text, hp, List.cons_append, search_cons (ne_newline hblank)]
      cases hc : isWordChar c with
      | true =>
        rw [hc] at hall
        rw [search_word hall, search_behind p.spaced (touch_of_chars_eq h hp hc), Bool.not_false,
          Bool.true_and]
      | false =>
        rw [hc] at hall
        rw [search_marks hall, Bool.not_false, Bool.true_and]
        cases p.spaced with
        | true => rw [behind_true, search_blank]
        | false => rfl
    rw [List.map_cons, List.infix_cons_iff, ← List.map_cons, ← startsHere_text h, ← ih h.2,
      ← Bool.or_eq_true, hstep]

end Decrement

/-! ## The texts of tokens -/

/-- The text begins with a quotation mark, as string and character literals do. -/
def Token.isQuoted (t : Token) : Bool :=
  t.text.toList.head?.any fun c => c == '"' || c == '\x27'

namespace Decrement

open Text

variable {g : Grammar} {t : Token} {c : Char} {cs : List Char}

theorem code_of_isWordRest (h : Scan.isWordRest c) : 48 ≤ c.toNat ∧ c.toNat ≤ 57 ∨
    65 ≤ c.toNat ∧ c.toNat ≤ 90 ∨ c.toNat = 95 ∨ 97 ≤ c.toNat ∧ c.toNat ≤ 122 := by
  rcases Bool.or_eq_true_iff.1 h with h | h
  · rcases Bool.or_eq_true_iff.1 h with h | h
    · rcases Bool.or_eq_true_iff.1 h with h | h
      · exact .inr (.inl (of_decide_eq_true h))
      · obtain ⟨hlow, hhigh⟩ := Bool.and_eq_true_iff.1 h
        exact .inr (.inr (.inr ⟨of_decide_eq_true hlow, of_decide_eq_true hhigh⟩))
    · obtain ⟨hlow, hhigh⟩ := Bool.and_eq_true_iff.1 h
      exact .inl ⟨of_decide_eq_true hlow, of_decide_eq_true hhigh⟩
  · rw [beq_iff_eq] at h
    rw [h]
    decide

theorem isWordChar_of_mem {first last : Nat} (h : (first, last) ∈ wordRanges)
    (hlow : first ≤ c.toNat) (hhigh : c.toNat ≤ last) : isWordChar c = true :=
  List.any_eq_true.2 ⟨_, h, by simp [hlow, hhigh]⟩

theorem isWordChar_of_isWordRest (h : Scan.isWordRest c) : isWordChar c = true := by
  rcases code_of_isWordRest h with ⟨hlow, hhigh⟩ | ⟨hlow, hhigh⟩ | heq | ⟨hlow, hhigh⟩
  · exact isWordChar_of_mem (.head _) hlow hhigh
  · exact isWordChar_of_mem (.tail _ (.head _)) hlow hhigh
  · exact isWordChar_of_mem (.tail _ (.tail _ (.head _))) heq.ge heq.le
  · exact isWordChar_of_mem (.tail _ (.tail _ (.tail _ (.head _)))) hlow hhigh

theorem isBlank_of_isWordRest (h : Scan.isWordRest c) : isBlank c = false := by
  have hcode := code_of_isWordRest h
  simp only [isBlank, Bool.or_eq_false_iff, Bool.and_eq_false_iff, decide_eq_false_iff_not,
    beq_eq_false_iff_ne]
  omega

theorem isWord_of_isWordRest (h : ∀ x ∈ c :: cs, Scan.isWordRest x) : IsWord (c :: cs) :=
  ⟨List.cons_ne_nil _ _, fun x hx =>
    ⟨isWordChar_of_isWordRest (h x hx), isBlank_of_isWordRest (h x hx)⟩⟩

theorem isSymbol_of_mem_symbols {s : String × SymbolKind} (h : s ∈ g.symbols) :
    IsSymbol s.1.toList := by
  have hall : (g.symbols.all fun s => !s.1.toList.isEmpty && s.1.toList.all isMark) = true := by
    cases g <;> rfl
  obtain ⟨hne, hmarks⟩ := Bool.and_eq_true_iff.1 (List.all_eq_true.1 hall s h)
  exact isSymbol_of_isMark (by simpa using hne) hmarks

theorem isSymbol_of_isPunctuation (h : Scan.isPunctuation c) : IsSymbol [c] := by
  have hc : isMark c = true := Scan.of_isPunctuation h rfl
  refine isSymbol_of_isMark (List.cons_ne_nil _ _) ?_
  rw [List.all_cons, hc]
  rfl

/-- A token that is not quoted is a word or a symbol. -/
theorem isSymbol_or_isWord (h : Lexeme g t) (hq : t.isQuoted = false) :
    IsSymbol t.text.toList ∨ IsWord t.text.toList := by
  cases h with
  | word hc hcs =>
    rw [Scan.text_word, String.toList_ofList]
    exact .inr (isWord_of_isWordRest
      (List.forall_mem_cons.2 ⟨Scan.isWordRest_of_isWordStart hc, hcs⟩))
  | number hc hcs =>
    rw [String.toList_ofList]
    refine .inr (isWord_of_isWordRest (List.forall_mem_cons.2 ⟨?_, fun x hx => ?_⟩))
    · exact Scan.isWordRest_of_isDigit hc
    · exact Scan.isWordRest_of_isDigit (hcs x hx)
  | string _ => simp [Token.isQuoted] at hq
  | character _ => simp [Token.isQuoted] at hq
  | symbol hs => exact .inl (isSymbol_of_mem_symbols hs)
  | stray hc _ =>
    rw [String.toList_ofList]
    exact .inl (isSymbol_of_isPunctuation hc)

end Decrement

/-! ## The pieces of a call -/

namespace Arguments

open Decrement

/-- The texts of the tokens between the parentheses of a call. -/
def texts : Arguments → List String
  | done _ => []
  | word text rest => text :: rest.texts
  | call name inner rest => name :: "(" :: (inner.texts ++ ")" :: rest.texts)

/-- The pieces of the text between the parentheses of a call. -/
def pieces : Arguments → List Piece
  | done _ => []
  | word text rest => ⟨text.toList, !rest.parts.isEmpty⟩ :: rest.pieces
  | call name inner rest =>
    ⟨name.toList, false⟩ :: ⟨['('], false⟩ ::
      (inner.pieces ++ ⟨[')'], !rest.parts.isEmpty⟩ :: rest.pieces)

theorem chars_pieces (a : Arguments) : a.pieces.map (·.chars) = a.texts.map String.toList := by
  induction a with
  | done closed => rfl
  | word text rest ih => simp [pieces, texts, ih]
  | call name inner rest ihi ihr => simp [pieces, texts, ihi, ihr]

/-- A text and the arguments behind it, with a blank between them if there are any. -/
theorem toList_intercalate_cons (text : String) (parts : List String) :
    (" ".intercalate (text :: parts)).toList =
      text.toList ++ behind (!parts.isEmpty) (" ".intercalate parts).toList := by
  cases parts with
  | nil => simp
  | cons part parts => simp [String.intercalate_cons_cons]

theorem text_pieces (a : Arguments) (ps : List Piece) :
    text (a.pieces ++ ps) = (" ".intercalate a.parts).toList ++ text ps := by
  induction a generalizing ps with
  | done closed => rfl
  | word t rest ih =>
    rw [pieces, parts, toList_intercalate_cons, List.cons_append, text, ih, behind_append,
      List.append_assoc]
  | call name inner rest ihi ihr =>
    rw [pieces, parts, toList_intercalate_cons, callText]
    simp [text, ihi, ihr, behind_append]

theorem separated_pieces (a : Arguments) (ps : List Piece)
    (h : ∀ t ∈ a.texts, IsSymbol t.toList ∨ IsWord t.toList) (hps : Separated ps)
    (hhead : ∀ q ∈ ps.head?, IsSymbol q.chars) : Separated (a.pieces ++ ps) := by
  induction a generalizing ps with
  | done closed => exact hps
  | word t rest ih =>
    obtain ⟨ht, hrest⟩ := List.forall_mem_cons.1 h
    refine ⟨ht.imp_right fun hw => ⟨hw, fun hs => ?_⟩, ih ps hrest hps hhead⟩
    cases rest with
    | done closed => exact hhead
    | word | call => cases hs
  | call name inner rest ihi ihr =>
    obtain ⟨hname, -, hrest⟩ : _ ∧ _ ∧ _ := by
      rw [texts, List.forall_mem_cons, List.forall_mem_cons] at h
      exact h
    obtain ⟨hinner, hmore⟩ := List.forall_mem_append.1 hrest
    obtain ⟨-, hrest⟩ := List.forall_mem_cons.1 hmore
    have hclose := ihi (⟨[')'], !rest.parts.isEmpty⟩ :: (rest.pieces ++ ps)) hinner
      ⟨.inl isSymbol_close, ihr ps hrest hps hhead⟩ (by
        rintro q ⟨⟩
        exact isSymbol_close)
    rw [pieces]
    simp only [List.cons_append, List.append_assoc]
    refine ⟨hname.imp_right fun hw => ⟨hw, fun _ => ?_⟩, .inl isSymbol_open, hclose⟩
    rintro q ⟨⟩
    exact isSymbol_open

/-- The text of a call shows `n - 1` where three of its tokens do. -/
theorem isDecrementing_callText (name : String) (a : Arguments)
    (h : ∀ t ∈ a.texts, IsSymbol t.toList ∨ IsWord t.toList) :
    isDecrementing name (callText name a.parts) ↔ ["n", "-", "1"] <:+: a.texts := by
  have hafter : afterName? name.toList (callText name a.parts).toList =
      some ('(' :: text a.pieces) := by
    have htext := text_pieces a []
    rw [List.append_nil] at htext
    rw [htext, afterName?, callText]
    simp [text]
  have hopen : search false false ('(' :: text a.pieces) = search true false (text a.pieces) := by
    rw [search, isWordChar_open]
    rfl
  have hpieces := separated_pieces a [] h trivial (by simp)
  rw [List.append_nil] at hpieces
  rw [isDecrementing, hafter, Option.map_some, Option.getD_some, hopen, search_text hpieces,
    chars_pieces, List.infix_map_iff]
  constructor
  · rintro ⟨l, hinfix, hl⟩
    have hinj : Function.Injective (List.map String.toList) :=
      List.map_injective_iff.2 fun _ _ => String.toList_inj.1
    have hthree : ["n", "-", "1"] = l := hinj hl
    rwa [hthree]
  · intro hinfix
    exact ⟨_, hinfix, rfl⟩

end Arguments

end GrowthOrder
