import GrowthOrder.Proofs.Token.Lexemes
import Mathlib

/-!
# Nothing that is recognised is lost

A text is read here as a row of stretches: fragments without quotes, and literals. The texts of its
tokens, one after the other, are the text itself with every literal as it stands and, in the
fragments, without the characters that belong to no word, number or symbol. The scanner does not see
where a stretch ends, and it cuts symbols off by the tables of the grammar. But what it cuts off in
a fragment holds no quote, so it never reaches into a literal.
-/
namespace GrowthOrder

namespace Scan

/-- A character of a word, a number or a symbol. -/
def isRecognised (c : Char) : Bool :=
  isWordRest c || isPunctuation c

/-- A part of a text in which every literal is closed. -/
inductive Stretch
  | fragment (cs : List Char) (quoteFree : ∀ c ∈ cs, c ≠ '"' ∧ c ≠ '\x27')
  | string (body : List Char) (closed : QuotedBody '"' body)
  | character (body : List Char) (closed : CharacterBody body)

namespace Stretch

def text : Stretch → List Char
  | fragment cs _ => cs
  | string body _ => '"' :: body
  | character body _ => '\x27' :: body

/-- What the scanner keeps of a stretch. -/
def kept : Stretch → List Char
  | fragment cs _ => cs.filter isRecognised
  | string body _ => '"' :: body
  | character body _ => '\x27' :: body

end Stretch

/-- What is kept of a text, character by character outside the literals. -/
inductive Keeps : List Char → List Char → Prop
  | nil : Keeps [] []
  | recognised {c : Char} {cs ks : List Char} : isRecognised c → Keeps cs ks →
      Keeps (c :: cs) (c :: ks)
  | dropped {c : Char} {cs ks : List Char} : c ≠ '"' → c ≠ '\x27' → isRecognised c = false →
      Keeps cs ks → Keeps (c :: cs) ks
  | string {body cs ks : List Char} : QuotedBody '"' body → Keeps cs ks →
      Keeps ('"' :: (body ++ cs)) ('"' :: (body ++ ks))
  | character {body cs ks : List Char} : CharacterBody body → Keeps cs ks →
      Keeps ('\x27' :: (body ++ cs)) ('\x27' :: (body ++ ks))

variable {g : Grammar} {t : Token} {c : Char} {cs ks rest : List Char}

theorem keeps_fragment (h : ∀ c ∈ cs, c ≠ '"' ∧ c ≠ '\x27') (hrest : Keeps rest ks) :
    Keeps (cs ++ rest) (cs.filter isRecognised ++ ks) := by
  induction cs with
  | nil => exact hrest
  | cons c cs ih =>
    have htail := ih fun x hx => h x (List.mem_cons_of_mem _ hx)
    obtain ⟨hq, hq'⟩ := h c List.mem_cons_self
    cases hc : isRecognised c with
    | true =>
      rw [List.filter_cons_of_pos hc]
      exact .recognised hc htail
    | false =>
      rw [List.filter_cons_of_neg (by simp [hc])]
      exact .dropped hq hq' hc htail

theorem keeps_stretches (stretches : List Stretch) :
    Keeps (stretches.flatMap Stretch.text) (stretches.flatMap Stretch.kept) := by
  induction stretches with
  | nil => exact .nil
  | cons s stretches ih =>
    rw [List.flatMap_cons, List.flatMap_cons]
    cases s with
    | fragment cs quoteFree => exact keeps_fragment quoteFree ih
    | string body closed => exact .string closed ih
    | character body closed => exact .character closed ih

/-- Recognised characters in front of a text are kept, and the rest by itself. -/
theorem Keeps.exists_of_append (hcs : ∀ c ∈ cs, isRecognised c) (h : Keeps (cs ++ rest) ks) :
    ∃ ls, ks = cs ++ ls ∧ Keeps rest ls := by
  induction cs generalizing ks with
  | nil => exact ⟨ks, rfl, h⟩
  | cons c cs ih =>
    have hc : isRecognised c := hcs c List.mem_cons_self
    rw [List.cons_append] at h
    generalize htext : cs ++ rest = text at h
    -- a quote is not recognised, so that no literal begins here
    cases h with
    | recognised _ h =>
      subst htext
      obtain ⟨ls, rfl, hls⟩ := ih (fun x hx => hcs x (List.mem_cons_of_mem _ hx)) h
      exact ⟨ls, rfl, hls⟩
    | dropped _ _ hno _ =>
      rw [hc] at hno
      cases hno
    | string _ _ => cases hc
    | character _ _ => cases hc

/-! ## One lexeme -/

theorem isRecognised_of_symbol {s : String × SymbolKind} (h : s ∈ g.symbols) :
    ∀ c ∈ s.1.toList, isRecognised c := by
  have hall : ∀ s ∈ g.symbols, s.1.toList.all isPunctuation := by cases g <;> decide
  intro c hc
  rw [isRecognised, List.all_eq_true.1 (hall s h) c hc, Bool.or_true]

/-- A lexeme that begins with no quote holds recognised characters only. -/
theorem isRecognised_of_lexeme (h : Lexeme g t) (hq : t.text.toList.head? ≠ some '"')
    (hq' : t.text.toList.head? ≠ some '\x27') : ∀ x ∈ t.text.toList, isRecognised x := by
  cases h with
  | @word x xs hx hxs =>
    rw [text_word, String.toList_ofList]
    refine List.forall_mem_cons.2 ⟨?_, fun y hy => ?_⟩
    · rw [isRecognised, isWordRest_of_isWordStart hx, Bool.true_or]
    · rw [isRecognised, hxs y hy, Bool.true_or]
  | @number x xs hx hxs =>
    rw [String.toList_ofList]
    refine List.forall_mem_cons.2 ⟨?_, fun y hy => ?_⟩
    · rw [isRecognised, isWordRest_of_isDigit hx, Bool.true_or]
    · rw [isRecognised, isWordRest_of_isDigit (hxs y hy), Bool.true_or]
  | string _ =>
    rw [String.toList_ofList] at hq
    exact absurd rfl hq
  | character _ =>
    rw [String.toList_ofList] at hq'
    exact absurd rfl hq'
  | symbol hs => exact isRecognised_of_symbol hs
  | @stray x hx _ =>
    rw [String.toList_ofList]
    refine List.forall_mem_singleton.2 ?_
    rw [isRecognised, hx, Bool.or_true]

theorem isWordStart_or_isDigit (h : isWordRest c) : isWordStart c ∨ c.isDigit := by
  rcases Bool.or_eq_true_iff.1 h with h | h
  · rcases Bool.or_eq_true_iff.1 h with h | h
    · exact .inl (by simp [isWordStart, h])
    · exact .inr h
  · exact .inl (by simp [isWordStart, h])

/-- A recognised character begins a lexeme. -/
theorem exists_lexeme (g : Grammar) (cs : List Char) (h : isRecognised c) :
    ∃ t n, lexeme g c cs = (some t, n) := by
  by_cases hword : isWordStart c
  · exact ⟨_, _, if_pos hword⟩
  by_cases hdigit : c.isDigit
  · exact ⟨_, _, (if_neg hword).trans (if_pos hdigit)⟩
  have hmark : isPunctuation c := by
    refine (Bool.or_eq_true_iff.1 h).resolve_left fun hrest => ?_
    exact (isWordStart_or_isDigit hrest).elim hword hdigit
  obtain ⟨-, -, hq, hq'⟩ := not_of_isPunctuation hmark
  rw [lexeme, if_neg hword, if_neg hdigit, if_neg hq, if_neg hq', if_pos hmark]
  cases g.longestSymbol (c :: cs) with
  | none => exact ⟨_, _, rfl⟩
  | some s => exact ⟨_, _, rfl⟩

theorem lexeme_of_not_recognised (g : Grammar) (cs : List Char) (hq : c ≠ '"') (hq' : c ≠ '\x27')
    (h : isRecognised c = false) : lexeme g c cs = (none, 0) := by
  obtain ⟨hrest, hmark⟩ := Bool.or_eq_false_iff.1 h
  have hword : ¬ isWordStart c := fun hword =>
    Bool.eq_false_iff.1 hrest (isWordRest_of_isWordStart hword)
  have hdigit : ¬ c.isDigit := fun hdigit =>
    Bool.eq_false_iff.1 hrest (isWordRest_of_isDigit hdigit)
  rw [lexeme, if_neg hword, if_neg hdigit, if_neg hq, if_neg hq', if_neg (by simp [hmark])]

/-- What is cut off at a recognised character holds such characters only. -/
theorem isRecognised_of_cut (h : Cut g (c :: cs) t rest) (hc : isRecognised c) :
    ∀ x ∈ t.text.toList, isRecognised x := by
  have hfirst : ∀ q, isRecognised q = false → t.text.toList.head? ≠ some q := by
    intro q hq hhead
    have hcq : (c :: cs).head? = some q := by
      rw [h.text_eq, List.head?_append, hhead]
      rfl
    obtain rfl := Option.some.inj hcq
    rw [hc] at hq
    cases hq
  exact isRecognised_of_lexeme h.lexeme (hfirst '"' rfl) (hfirst '\x27' rfl)

/-- The texts of the tokens are what is kept. -/
theorem flatMap_text_tokens (g : Grammar) (h : Keeps cs ks) :
    (tokens g cs).flatMap (fun t => t.text.toList) = ks := by
  fun_induction tokens g cs generalizing ks with
  | case1 =>
    cases h
    rfl
  | case2 c cs token n hl ih =>
    cases h with
    | @recognised _ _ ks hc h =>
      obtain ⟨t, m, ht⟩ := exists_lexeme g cs hc
      obtain ⟨rfl, rfl⟩ := Prod.mk.inj (hl.symm.trans ht)
      have hcut := cut_of_lexeme hl
      have hkeeps : Keeps (t.text.toList ++ cs.drop n) (c :: ks) :=
        hcut.text_eq ▸ .recognised hc h
      obtain ⟨ls, hks, hls⟩ := hkeeps.exists_of_append (isRecognised_of_cut hcut hc)
      rw [hks, ← ih hls]
      simp
    | dropped hq hq' hc h =>
      rw [lexeme_of_not_recognised g cs hq hq' hc] at hl
      cases hl
      exact ih h
    | string hbody h =>
      rw [lexeme_string hbody] at hl
      cases hl
      rw [List.drop_left] at ih ⊢
      simp [ih h]
    | character hbody h =>
      rw [lexeme_character hbody] at hl
      cases hl
      rw [List.drop_left] at ih ⊢
      simp [ih h]

end Scan

namespace Grammar

/-- If the scanned characters are a row of fragments and literals, the texts of the tokens make up
what is kept of them: the literals, and the recognised characters of the fragments. -/
theorem texts_tokenize (g : Grammar) (source : String) (stretches : List Scan.Stretch)
    (h : g.scannedText source = stretches.flatMap Scan.Stretch.text) :
    (g.tokenize source).flatMap (fun t => t.text.toList) =
      stretches.flatMap Scan.Stretch.kept := by
  rw [tokenize, h]
  exact Scan.flatMap_text_tokens g (Scan.keeps_stretches stretches)

/-- Dropped characters beside literals with escapes, and a comment at the end. -/
theorem texts_tokenize_literals :
    ∃ stretches : List Scan.Stretch,
      scannedText .javaLike "s=\"\\\"//\"#+'\\''>>>=é//c" =
        stretches.flatMap Scan.Stretch.text ∧
      (tokenize .javaLike "s=\"\\\"//\"#+'\\''>>>=é//c").flatMap (fun t => t.text.toList) =
        "s=\"\\\"//\"+'\\''>>>=".toList := by
  have hclosed : QuotedBody '"' ['\\', '"', '/', '/', '"'] :=
    .escape (by decide) <| .char (by decide) (by decide) <| .char (by decide) (by decide) .close
  let stretches : List Scan.Stretch := [.fragment ['s', '='] (by simp),
    .string ['\\', '"', '/', '/', '"'] hclosed, .fragment ['#', '+'] (by simp),
    .character ['\\', '\x27', '\x27'] (.escape (by decide)),
    .fragment ['>', '>', '>', '=', 'é', ' '] (by simp)]
  have hscanned : scannedText .javaLike "s=\"\\\"//\"#+'\\''>>>=é//c" =
      stretches.flatMap Scan.Stretch.text := by cbv
  exact ⟨stretches, hscanned, (texts_tokenize .javaLike _ stretches hscanned).trans (by cbv)⟩

end Grammar

end GrowthOrder
