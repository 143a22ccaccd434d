import GrowthOrder.Proofs.Draft.Placement
import GrowthOrder.Token.Scan
import Mathlib

/-!
# Calls and the functions around them

A call is judged once, when it is read, by the scopes that are open then, and is put below other
calls if it stands in their arguments. The finished tree agrees with that judgement: a call is
recursive exactly if the function around it, found on the way up from the call, has its name.
-/
namespace GrowthOrder.SyntaxTree

variable {d : Dialect} {tokens : List Token} {t : SyntaxTree}

/-- Every recursive call is in a function of its name, and every other call is in a function of
another name or in none. -/
theorem calls_ofTokens (h : ofTokens d tokens = .ok t) :
    (∀ u name, t.kind u = .recursiveCall name →
      ∃ f, t.enclosingFunction? u = some f ∧ t.kind f = .functionDeclaration name) ∧
    ∀ u name, t.kind u = .functionCall name →
      t.enclosingFunction? u = none ∨
      ∃ f other, t.enclosingFunction? u = some f ∧ t.kind f = .functionDeclaration other ∧
        other ≠ name := by
  have ht := arranged_ofTokens h
  constructor
  · intro u name hu
    exact exists_of_enclosingName? (ht.enclosingName?_of_recursiveCall hu)
  · intro u name hu
    have hname := ht.enclosingName?_of_functionCall hu
    cases hf : t.enclosingFunction? u with
    | none => exact .inl rfl
    | some f =>
      obtain ⟨other, hk⟩ := exists_name_of_enclosingFunction? hf
      refine .inr ⟨f, other, rfl, hk, ?_⟩
      rintro rfl
      apply hname
      rw [enclosingName?, hf, Option.bind_some, hk]
      rfl

/-- A call of a function in the arguments of another call inside it, and a call behind its end. -/
theorem calls_ofTokens_nested :
    ∃ t, ofTokens { grammar := .cLike } (Grammar.tokenize .cLike
        "int f() \x7b g(f()); \x7d f();") = .ok t ∧
      (∃ u f, t.kind u = .recursiveCall "f" ∧ t.enclosingFunction? u = some f ∧
        t.kind f = .functionDeclaration "f") ∧
      ∃ u, t.kind u = .functionCall "f" ∧ (t.enclosingFunction? u = none ∨
        ∃ f other, t.enclosingFunction? u = some f ∧ t.kind f = .functionDeclaration other ∧
          other ≠ "f") := by
  have heval : (ofTokens { grammar := .cLike } (Grammar.tokenize .cLike
      "int f() \x7b g(f()); \x7d f();")).bind (fun t => .ok (t.kind 6, t.kind 9)) =
        .ok (.recursiveCall "f", .functionCall "f") := by cbv
  obtain ⟨t, ht, hkinds⟩ := exists_of_bind_ofTokens heval
  obtain ⟨hrecursive, hcall⟩ := Prod.mk.inj (Except.ok.inj hkinds)
  obtain ⟨hinside, hother⟩ := calls_ofTokens ht
  obtain ⟨f, hf⟩ := hinside 6 "f" hrecursive
  exact ⟨t, ht, ⟨6, f, hrecursive, hf⟩, 9, hcall, hother 9 "f" hcall⟩

end GrowthOrder.SyntaxTree
