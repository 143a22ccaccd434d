import GrowthOrder.Proofs.Program.Reading
import GrowthOrder.Proofs.Routine.Syntax

/-!
# Reading functions that call themselves

The name of the function before a parenthesis is a call: behind the parenthesis that closes its
arguments a semicolon or a further parenthesis comes before any brace, so no body follows. Reading
the arguments of a call takes the tokens of the sequence between the parentheses, calls inside it
included. Statement by statement a body adds its nodes to the scope of its function.
-/
namespace GrowthOrder

open Program

/-! ## Tokens between parentheses -/

namespace Token

variable {d : Dialect} {t : Token} {rest : List Token} {text : String}

theorem is_eq_false_of_not_grouping (h : t.text ∉ grouping) (htext : text ∈ grouping) :
    t.is text = false :=
  is_eq_false fun he => h (he ▸ htext)

theorem not_grouping_of_isSimple {g : Grammar} (h : t.IsSimple g) : t.text ∉ grouping := by
  rcases h with ⟨hs, hk⟩ | rfl | rfl
  · exact hs.not_mem_grouping hk
  · decide
  · decide

/-- A token that groups nothing is one text of the arguments, unless it is called. -/
theorem read_argument (h : t.text ∉ grouping) (hcall : nextIs rest "(" = false) :
    Arguments.read d 0 (t :: rest) =
      (.word t.text (Arguments.read d 0 rest).1, (Arguments.read d 0 rest).2 + 1) := by
  have hno : ∀ text ∈ grouping, t.is text = false := fun _ => is_eq_false_of_not_grouping h
  rw [Arguments.read]
  simp [hno "(" (by decide), hno ")" (by decide), hno ";" (by decide), hno "\x7b" (by decide),
    hno "\x7d" (by decide), hcall]

theorem read_argumentCall (h : t.text ∉ grouping) (hcallee : d.isCallee t = true) {a b : Arguments}
    {n m : Nat} (ha : Arguments.read d 0 rest = (a, n))
    (hb : Arguments.read d 0 (rest.drop n) = (b, m)) :
    Arguments.read d 0 (t :: mark "(" :: rest) = (.call t.text a b, n + m + 2) := by
  have hno : ∀ text ∈ grouping, t.is text = false := fun _ => is_eq_false_of_not_grouping h
  have hopen : nextIs (mark "(" :: rest) "(" = true := rfl
  rw [Arguments.read]
  simp [hno "(" (by decide), hno ")" (by decide), hno ";" (by decide), hno "\x7b" (by decide),
    hno "\x7d" (by decide), hcallee, hopen, ha, hb]

theorem afterParameters_cons (h : t.text ∉ grouping) (depth : Nat) :
    Construct.afterParameters depth (t :: rest) = Construct.afterParameters depth rest := by
  rw [Construct.afterParameters, is_eq_false_of_not_grouping h (by decide),
    is_eq_false_of_not_grouping h (by decide)]
  rfl

/-- A token that groups nothing is passed over in the search for a body. -/
theorem find?_cons_of_not_grouping (h : t.text ∉ grouping) :
    ((t :: rest).find? fun t => t.is "\x7b" || t.is ";" || t.is "\x7d" || t.is ")") =
      rest.find? fun t => t.is "\x7b" || t.is ";" || t.is "\x7d" || t.is ")" := by
  have hno : ∀ text ∈ grouping, t.is text = false := fun _ => is_eq_false_of_not_grouping h
  refine List.find?_cons_of_neg ?_
  simp [hno ")" (by decide), hno ";" (by decide), hno "\x7b" (by decide),
    hno "\x7d" (by decide)]

end Token

namespace FunctionName

variable {d : Dialect} (f : FunctionName d)

theorem not_grouping : f.text ∉ Token.grouping :=
  f.scanned.not_mem_grouping (.inl rfl)

theorem isCallee : d.isCallee ⟨.identifier, f.text⟩ = true := by
  simp [Dialect.isCallee, Token.isIdentifier, f.not_intrinsic, f.not_allocator]

theorem quiet : Token.Quiet ⟨.identifier, f.text⟩ :=
  quiet_of_isSimple (.inl ⟨f.scanned, .inl rfl⟩)

end FunctionName

namespace Sentence

variable {d : Dialect} {f : FunctionName d} {t : Token}

/-- Neither a parenthesis nor a bracket comes next where a sequence begins. -/
theorem nextIs_tokens (s : Sentence d.grammar) (ht : t.Quiet) (rest : List Token) :
    nextIs (s.tokens f.text ++ t :: rest) "(" = false ∧
      nextIs (s.tokens f.text ++ t :: rest) "[" = false := by
  cases s with
  | nil => exact ht.nextIs_eq_false
  | word w simple s => exact (quiet_of_isSimple simple).nextIs_eq_false
  | call inner s => exact f.quiet.nextIs_eq_false

/-- The sequence between the parentheses of a call is read as its arguments. -/
theorem read_arguments (s : Sentence d.grammar) (rest : List Token) :
    Arguments.read d 0 (s.tokens f.text ++ mark ")" :: rest) =
      (s.arguments f.text, (s.tokens f.text).length + 1) := by
  induction s generalizing rest with
  | nil =>
    rw [tokens, List.nil_append, Arguments.read]
    rfl
  | word t simple s ih =>
    have hnext := s.nextIs_tokens (f := f) (t := mark ")") (quiet_mark (by decide)) rest
    rw [tokens, List.cons_append,
      Token.read_argument (Token.not_grouping_of_isSimple simple) hnext.1, ih]
    rfl
  | call inner s ihi ihs =>
    have hcons : (call inner s).tokens f.text ++ mark ")" :: rest =
        ⟨.identifier, f.text⟩ :: mark "(" ::
          (inner.tokens f.text ++ mark ")" :: (s.tokens f.text ++ mark ")" :: rest)) := by
      simp [tokens]
    have hdrop : (inner.tokens f.text ++ mark ")" :: (s.tokens f.text ++ mark ")" :: rest)).drop
        ((inner.tokens f.text).length + 1) = s.tokens f.text ++ mark ")" :: rest := by
      rw [List.drop_append]
      simp
    rw [hcons, Token.read_argumentCall f.not_grouping f.isCallee (ihi _) (hdrop ▸ ihs rest)]
    refine Prod.ext rfl ?_
    simp [tokens]
    omega

/-- Inside parentheses a sequence leaves their number as it was. -/
theorem afterParameters_tokens (s : Sentence d.grammar) (depth : Nat) (ts : List Token) :
    Construct.afterParameters (depth + 1) (s.tokens f.text ++ ts) =
      Construct.afterParameters (depth + 1) ts := by
  induction s generalizing depth ts with
  | nil => rfl
  | word t simple s ih =>
    rw [tokens, List.cons_append,
      Token.afterParameters_cons (Token.not_grouping_of_isSimple simple), ih]
  | call inner s ihi ihs =>
    have hcons : (call inner s).tokens f.text ++ ts = ⟨.identifier, f.text⟩ :: mark "(" ::
        (inner.tokens f.text ++ mark ")" :: (s.tokens f.text ++ ts)) := by
      simp [tokens]
    have hopen : ∀ rest, Construct.afterParameters (depth + 1) (mark "(" :: rest) =
        Construct.afterParameters (depth + 2) rest := fun _ => rfl
    have hclose : ∀ rest, Construct.afterParameters (depth + 2) (mark ")" :: rest) =
        Construct.afterParameters (depth + 1) rest := fun _ => rfl
    rw [hcons, Token.afterParameters_cons f.not_grouping, hopen, ihi, hclose, ihs]

/-- Behind a sequence a brace does not come before the symbol that ends the sequence. -/
theorem find?_tokens (s : Sentence d.grammar) {last : String} (h : last ∈ [";", ")"])
    (rest : List Token) :
    ((s.tokens f.text ++ mark last :: rest).find? fun t =>
      t.is "\x7b" || t.is ";" || t.is "\x7d" || t.is ")").any (·.is "\x7b") = false := by
  induction s generalizing last rest with
  | nil =>
    rcases List.mem_pair.1 h with rfl | rfl
    · rfl
    · rfl
  | word t simple s ih =>
    rw [tokens, List.cons_append,
      Token.find?_cons_of_not_grouping (Token.not_grouping_of_isSimple simple)]
    exact ih h rest
  | call inner s ihi _ =>
    have hcons : (call inner s).tokens f.text ++ mark last :: rest =
        ⟨.identifier, f.text⟩ :: mark "(" ::
          (inner.tokens f.text ++ mark ")" :: (s.tokens f.text ++ mark last :: rest)) := by
      simp [tokens]
    rw [hcons, Token.find?_cons_of_not_grouping f.not_grouping]
    exact ihi (by decide) _

/-- No body follows the arguments of a call. -/
theorem hasBody_eq_false (inner s : Sentence d.grammar) (rest : List Token) :
    Construct.hasBody (mark "(" :: (inner.tokens f.text ++ mark ")" ::
      (s.tokens f.text ++ mark ";" :: rest))) = false := by
  have hafter : Construct.afterParameters 0 (mark "(" :: (inner.tokens f.text ++ mark ")" ::
      (s.tokens f.text ++ mark ";" :: rest))) = some (s.tokens f.text ++ mark ";" :: rest) :=
    afterParameters_tokens inner 0 _
  rw [Construct.hasBody, hafter]
  exact s.find?_tokens (by decide) rest

theorem read_call (inner s : Sentence d.grammar) (previous : Option Token) (rest : List Token) :
    Construct.read d previous ⟨.identifier, f.text⟩ (mark "(" :: (inner.tokens f.text ++
        mark ")" :: (s.tokens f.text ++ mark ";" :: rest))) =
      (.call f.text (inner.arguments f.text), (inner.tokens f.text).length + 2) := by
  have hplain : (Token.mk .identifier f.text).is "\x7d" = false :=
    Token.is_eq_false_of_not_grouping f.not_grouping (by decide)
  have hnext : ∀ rest, nextIs (mark "(" :: rest) "(" = true := fun _ => rfl
  rw [Construct.read]
  simp [Construct.plain, hplain, Token.isIdentifier, hnext, Construct.callSite, hasBody_eq_false,
    f.not_intrinsic, f.not_allocator, read_arguments]

end Sentence

/-! ## Statements and functions -/

namespace Passes

variable {d : Dialect} {s : Spine} {f : FunctionName d}

/-- A sequence and the semicolon, inside the function that it calls. -/
theorem sentence (p : Sentence d.grammar) (h : s.enclosing? = some f.text) :
    Passes d s (p.tokens f.text ++ [mark ";"])
      (s.add (p.forest f.text ++ .expressions [";"])) := by
  induction p generalizing s with
  | nil => exact mute (mute_mark (by decide))
  | word t simple p ih =>
    have hquiet := quiet_of_isSimple simple
    have hrest := ih (s := s.add (.leaf .expression t.text)) (by rwa [Spine.enclosing?_add])
    rw [Spine.add_add] at hrest
    refine nodes (c := .leaf .expression t.text) [] (p.tokens f.text ++ [mark ";"])
      (fun previous rest => ?_) rfl (Token.is_eq_false hquiet.ne_brace) hrest
    rcases hquiet.1 with hk | hmute
    · have hnext := p.nextIs_tokens (f := f) (t := mark ";") (quiet_mark (by decide)) rest
      rw [List.nil_append, List.append_assoc]
      exact Token.read_identifier hk hquiet.ne_brace hnext.1 hnext.2
    · exact hmute.read
  | call inner p _ ihp =>
    have hrest := ihp (s := s.add ((Sentence.call inner .nil).forest f.text))
      (by rwa [Spine.enclosing?_add])
    rw [Spine.add_add] at hrest
    have hcall := nodes (c := .call f.text (inner.arguments f.text)) (t := ⟨.identifier, f.text⟩)
      (mark "(" :: (inner.tokens f.text ++ [mark ")"])) (p.tokens f.text ++ [mark ";"])
      (fun previous rest => ?_) (by rw [h]; rfl) ?_ hrest
    · simp only [List.cons_append, List.append_assoc, List.nil_append] at hcall
      simp only [Sentence.tokens, List.cons_append, List.append_assoc]
      exact hcall
    · have hread := Sentence.read_call (f := f) inner p previous rest
      simp only [List.cons_append, List.append_assoc, List.nil_append]
      rw [hread]
      simp
    · rw [← List.cons_append, ← List.cons_append, List.getLast?_concat]
      rfl

/-- A statement, with the keyword that ends the function or without. -/
theorem statement (returns : Bool) (p : Sentence d.grammar) (h : s.enclosing? = some f.text) :
    Passes d s (Routine.leading returns ++ (p.tokens f.text ++ [mark ";"]))
      (s.add (Routine.leadingForest returns ++ (p.forest f.text ++ .expressions [";"]))) := by
  cases returns with
  | false => exact sentence p h
  | true =>
    have hrest := sentence (s := s.add (.leaf .returnStatement "return")) p
      (by rwa [Spine.enclosing?_add])
    rw [Spine.add_add] at hrest
    have haction : d.grammar.action? "return" = some .returnStatement := by
      cases d.grammar <;> rfl
    exact nodes (c := .leaf .returnStatement "return") [] _ (fun _ _ => read_key haction) rfl rfl
      hrest

/-- Inside its function every body passes and adds its nodes. -/
theorem routine (p : Routine d.grammar) (h : s.enclosing? = some f.text) :
    Passes d s (p.tokens f.text) (s.add (p.forest f.text)) := by
  induction p generalizing s with
  | nil =>
    rw [Routine.forest, Spine.add_nil]
    exact refl d s
  | statement returns sentence rest ih =>
    have hall := (statement (f := f) returns sentence h).trans (ih (by rwa [Spine.enclosing?_add]))
    simp only [Spine.add_add, Forest.append_assoc, List.append_assoc] at hall
    exact hall
  | whileLoop condition body rest ihb ihr =>
    have hall := (whileBlock condition fun o ho => ihb (ho.trans h)).trans
      (ihr (by rwa [Spine.enclosing?_add]))
    simp only [Spine.add_add, List.append_assoc, List.cons_append] at hall
    exact hall
  | doLoop body condition rest ihb ihr =>
    have hall := (doBlock condition fun o ho => ihb (ho.trans h)).trans
      (ihr (by rwa [Spine.enclosing?_add]))
    simp only [Spine.add_add, Forest.append_assoc, List.append_assoc, List.cons_append] at hall
    exact hall
  | forLoop hg i c u body rest ihb ihr =>
    have hall := (forBlock hg i c u fun o ho => ihb (ho.trans h)).trans
      (ihr (by rwa [Spine.enclosing?_add]))
    simp only [Spine.add_add, List.append_assoc, List.cons_append] at hall
    exact hall
  | branch condition body rest ihb ihr =>
    have hall := (ifBlock condition fun o ho => ihb (ho.trans h)).trans
      (ihr (by rwa [Spine.enclosing?_add]))
    simp only [Spine.add_add, List.append_assoc, List.cons_append] at hall
    exact hall
  | branchElse condition body other rest ihb iho ihr =>
    have helse : (s.add (Program.block .conditional "if" ("(" :: (condition.texts ++ [")", "\x7b"]))
        (body.forest f.text))).enclosing? = some f.text := by rwa [Spine.enclosing?_add]
    have hall := (ifBlock condition fun o ho => ihb (ho.trans h)).trans
      ((elseBlock fun o ho => iho (ho.trans helse)).trans
        (ihr (by rwa [Spine.enclosing?_add])))
    simp only [Spine.add_add, Forest.append_assoc, List.append_assoc, List.cons_append] at hall
    exact hall

/-- The parameter of a function and the brace before its body. -/
theorem parameters (s : Spine) :
    Passes d s [mark "(", key "int", ⟨.identifier, "n"⟩, mark ")", mark "\x7b"]
      (s.add (.expressions ["("] ++ (declaration (Definition.numberType d.grammar)
        (Definition.parameter d.grammar) ++ .expressions [")", "\x7b"]))) := by
  have hquiet : ∀ w ∈ [mark ")"], w.Quiet :=
    List.forall_mem_singleton.2 (quiet_mark (by decide))
  have hend := words (d := d) (t := mark "\x7b")
    (s := (s.add (.expressions ["("])).add (declaration (Definition.numberType d.grammar)
      (Definition.parameter d.grammar))) hquiet (quiet_mark (by decide)) (mute_mark (by decide))
  have hall := (mute (s := s) (t := mark "(") (mute_mark (by decide))).trans
    (declare (Definition.numberType d.grammar) (Definition.parameter d.grammar)
      (quiet_mark (by decide)) hend)
  rw [Spine.add_add, Spine.add_add] at hall
  exact hall

/-- A type and a name before a parameter and a brace open the scope of a function. -/
theorem read_definition (type : TypeWord d.grammar) (f : FunctionName d) (previous : Option Token)
    (rest : List Token) :
    Construct.read d previous (key type.text) (⟨.identifier, f.text⟩ :: mark "(" :: key "int" ::
        ⟨.identifier, "n"⟩ :: mark ")" :: mark "\x7b" :: rest) =
      (.scope (.functionDeclaration f.text) f.text, 1) := by
  have hbody : Construct.hasBody (mark "(" :: key "int" :: ⟨.identifier, "n"⟩ :: mark ")" ::
      mark "\x7b" :: rest) = true := rfl
  have hnext : ∀ rest, nextIs (mark "(" :: rest) "(" = true := fun _ => rfl
  rw [read_type type ⟨f.text, f.scanned⟩]
  simp [Construct.declarator, Token.isIdentifier, hnext, Construct.function, hbody]

/-- A function passes and adds its node. -/
theorem definition (f : Definition d) (s : Spine) : Passes d s f.tokens (s.add f.forest) := by
  have henclosing : ∀ F, (Spine.scope s (.functionDeclaration f.name.text) (some f.name.text)
      F).enclosing? = some f.name.text := fun _ => rfl
  have hinside := (parameters (.scope s (.functionDeclaration f.name.text) (some f.name.text)
    .nil)).trans ((routine f.body (henclosing _)).trans (close (by simp)))
  simp only [Forest.append_assoc, Forest.nil_append] at hinside
  exact enter (c := fun _ => .scope (.functionDeclaration f.name.text) f.name.text)
    [⟨.identifier, f.name.text⟩] _ (fun previous rest => read_definition f.type f.name previous _)
    (fun _ _ _ => rfl) (Token.is_eq_false f.name.quiet.ne_brace) hinside

end Passes

end GrowthOrder
