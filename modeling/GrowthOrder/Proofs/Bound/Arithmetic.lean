import GrowthOrder.Proofs.Bound.Product
import Mathlib

/-!
# Expressions as arithmetic

A bound that is an expression keeps it as a text, in which a sum is put into parentheses when it
becomes a factor; whether it is a sum is told from a `+` anywhere in the text. Texts are read back
by the grammar of sums, products and factors, and by an evaluator that goes once from left to right.
Both give the value of the numbers, sums and products that the text was made from.
-/
namespace GrowthOrder

namespace Arithmetic

inductive Symbol
  | number (value : Nat)
  | plus
  | times
  | opening
  | closing
  | other (c : Char)
  deriving DecidableEq

/-- The symbol of a character that is neither a digit nor a blank. -/
def Symbol.ofChar (c : Char) : Symbol :=
  if c = '+' then plus
  else if c = '*' then times
  else if c = '(' then opening
  else if c = ')' then closing
  else other c

/-- The symbols of a text that follows digits of the value `pending`, if there are any directly in
front of it. -/
def symbols (pending : Option Nat) : List Char → List Symbol
  | [] => pending.toList.map .number
  | c :: rest =>
    if c.isDigit then symbols (some (10 * pending.getD 0 + (c.toNat - '0'.toNat))) rest
    else pending.toList.map .number ++ (if c = ' ' then [] else [.ofChar c]) ++ symbols none rest

inductive Level
  | sum
  | product
  | factor

/-- The grammar of expressions, with the value of each: a sum of products of factors, which are
numbers or sums in parentheses. -/
inductive Denotes : Level → List Symbol → Nat → Prop
  | number (n : Nat) : Denotes .factor [.number n] n
  | group {s : List Symbol} {m : Nat} : Denotes .sum s m →
      Denotes .factor (.opening :: s ++ [.closing]) m
  | factor {s : List Symbol} {m : Nat} : Denotes .factor s m → Denotes .product s m
  | times {s t : List Symbol} {m n : Nat} : Denotes .product s m → Denotes .factor t n →
      Denotes .product (s ++ .times :: t) (m * n)
  | product {s : List Symbol} {m : Nat} : Denotes .product s m → Denotes .sum s m
  | plus {s t : List Symbol} {m n : Nat} : Denotes .sum s m → Denotes .product t n →
      Denotes .sum (s ++ .plus :: t) (m + n)

/-- What the evaluator keeps of an open sum: the terms that are complete, added up, and the factors
of the last term, multiplied. -/
structure Tally where
  sum : Nat := 0
  product : Nat := 1

mutual

/-- The value of the rest of an expression where a factor is due, inside some open parentheses. -/
def operand (p : Tally) (outer : List Tally) : List Symbol → Option Nat
  | .number n :: rest => operator ⟨p.sum, p.product * n⟩ outer rest
  | .opening :: rest => operand {} (p :: outer) rest
  | _ => none

/-- The value of the rest of an expression behind a factor. -/
def operator (p : Tally) : List Tally → List Symbol → Option Nat
  | [], [] => some (p.sum + p.product)
  | outer, .plus :: rest => operand ⟨p.sum + p.product, 1⟩ outer rest
  | outer, .times :: rest => operand p outer rest
  | q :: outer, .closing :: rest => operator ⟨q.sum, q.product * (p.sum + p.product)⟩ outer rest
  | _, _ => none

end

def evaluate (text : String) : Option Nat :=
  operand {} [] (symbols none text.toList)

/-- How the evaluator passes over a part of an expression, whatever follows. A factor or a product is
multiplied into the open term; a sum begins where no term is open and leaves its last term open. -/
def Passes : Level → List Symbol → Nat → Prop
  | .sum, s, n => ∀ m outer rest, ∃ p : Tally, p.sum + p.product = m + n ∧
      operand ⟨m, 1⟩ outer (s ++ rest) = operator p outer rest
  | _, s, n => ∀ p outer rest,
      operand p outer (s ++ rest) = operator ⟨p.sum, p.product * n⟩ outer rest

theorem passes_of_denotes {k : Level} {s : List Symbol} {n : Nat} (h : Denotes k s n) :
    Passes k s n := by
  induction h with
  | number n => exact fun p outer rest => rfl
  | @group s n _ ih =>
    intro p outer rest
    -- the tally outside waits while the sum is read from nothing, up to its own parenthesis
    obtain ⟨q, hq, heq⟩ := ih 0 (p :: outer) (.closing :: rest)
    have hgroup : Symbol.opening :: s ++ [.closing] ++ rest =
        .opening :: (s ++ .closing :: rest) := by simp
    rw [hgroup, operand, heq, operator, hq, Nat.zero_add]
  | factor _ ih => exact ih
  | @times s t m n _ _ ihs iht =>
    intro p outer rest
    rw [List.append_assoc, ihs, List.cons_append, operator, iht, Nat.mul_assoc]
  | @product s n _ ih =>
    intro m outer rest
    exact ⟨⟨m, n⟩, rfl, by rw [ih, Nat.one_mul]⟩
  | @plus s t m n _ _ ihs iht =>
    intro k outer rest
    obtain ⟨p, hp, heq⟩ := ihs k outer (.plus :: (t ++ rest))
    refine ⟨⟨k + m, n⟩, Nat.add_assoc k m n, ?_⟩
    rw [List.append_assoc, List.cons_append, heq, operator, hp, iht, Nat.one_mul]

/-- The evaluator finds the value that the grammar gives. -/
theorem evaluate_of_denotes {text : String} {n : Nat}
    (h : Denotes .sum (symbols none text.toList) n) : evaluate text = some n := by
  obtain ⟨p, hp, heq⟩ := passes_of_denotes h 0 [] []
  rw [List.append_nil] at heq
  change operand ⟨0, 1⟩ [] (symbols none text.toList) = some n
  rw [heq, operator, hp, Nat.zero_add]

/-- A sum of two sums is a sum, however they are grouped. -/
theorem Denotes.sum_plus_sum {s t : List Symbol} {m n : Nat} (hs : Denotes .sum s m)
    (ht : Denotes .sum t n) : Denotes .sum (s ++ .plus :: t) (m + n) := by
  generalize hk : Level.sum = k at ht
  induction ht with
  | product ht => exact .plus hs ht
  | @plus t u n l _ hu iht _ =>
    have := Denotes.plus (iht hk) hu
    rwa [List.append_assoc, List.cons_append, Nat.add_assoc] at this
  | _ => cases hk

theorem Denotes.product_times_product {s t : List Symbol} {m n : Nat} (hs : Denotes .product s m)
    (ht : Denotes .product t n) : Denotes .product (s ++ .times :: t) (m * n) := by
  generalize hk : Level.product = k at ht
  induction ht with
  | factor ht => exact .times hs ht
  | @times t u n l _ hu iht _ =>
    have := Denotes.times (iht hk) hu
    rwa [List.append_assoc, List.cons_append, Nat.mul_assoc] at this
  | _ => cases hk

/-- Where no number goes on, texts are cut apart. -/
theorem symbols_append {c : Char} (hc : ¬ c.isDigit) (pending : Option Nat) (x y : List Char) :
    symbols pending (x ++ c :: y) = symbols pending x ++ symbols none (c :: y) := by
  induction x generalizing pending with
  | nil => simp [symbols, hc]
  | cons d x ih =>
    rw [List.cons_append, symbols, symbols]
    split
    · exact ih _
    · rw [ih, List.append_assoc, List.append_assoc, List.append_assoc]

theorem symbols_digits {digits : List Char} (h : ∀ c ∈ digits, c.isDigit) (n : Nat) :
    symbols (some n) digits = [.number (Nat.ofDigitChars 10 digits n)] := by
  induction digits generalizing n with
  | nil => rfl
  | cons c digits ih =>
    obtain ⟨hc, hdigits⟩ := List.forall_mem_cons.1 h
    rw [symbols, if_pos hc, ih hdigits, Nat.ofDigitChars_cons]
    rfl

/-- An operator stands between blanks. -/
theorem symbols_infix {c : Char} (hc : ¬ c.isDigit) (hblank : c ≠ ' ') (x y : List Char) :
    symbols none (x ++ ' ' :: c :: ' ' :: y) = symbols none x ++ .ofChar c :: symbols none y := by
  have hdigit : ¬ ' '.isDigit := by decide
  rw [symbols_append hdigit]
  simp [symbols, hdigit, hc, hblank]

theorem symbols_group (x : List Char) : symbols none ('(' :: (x ++ [')'])) =
    .opening :: symbols none x ++ [.closing] := by
  have hopening : symbols none ('(' :: (x ++ [')'])) = .opening :: symbols none (x ++ [')']) := rfl
  rw [hopening, symbols_append (by decide)]
  rfl

end Arithmetic

/-- A number in decimal digits; zeros may stand in front. -/
structure Numeral where
  text : String
  ne_nil : text.toList ≠ []
  isDigit : ∀ c ∈ text.toList, c.isDigit

def Numeral.value (n : Numeral) : Nat :=
  Nat.ofDigitChars 10 n.text.toList 0

/-- Numbers, added and multiplied. -/
inductive Expression
  | numeral (n : Numeral)
  | sum (first second : Expression)
  | product (first second : Expression)

namespace Expression

def value : Expression → Nat
  | numeral n => n.value
  | sum first second => first.value + second.value
  | product first second => first.value * second.value

/-- The bound that is made by putting the parts of an expression in sequence or into each other. -/
def bound? : Expression → Option Bound
  | numeral n => some (.symbolic n.text)
  | sum first second => first.bound?.bind fun a => second.bound?.map a.add
  | product first second => first.bound?.bind fun a => second.bound?.bind a.multiply?

/-- The text of that bound. -/
def text : Expression → String
  | numeral n => n.text
  | sum first second => first.text ++ " + " ++ second.text
  | product first second => Bound.factor first.text ++ " * " ++ Bound.factor second.text

theorem bound?_eq (e : Expression) : e.bound? = some (.symbolic e.text) := by
  induction e with
  | numeral n => rfl
  | sum a b iha ihb =>
    rw [bound?, iha, ihb, Option.bind_some, Option.map_some, Bound.symbolic_add_symbolic, text]
  | product a b iha ihb =>
    rw [bound?, iha, ihb, Option.bind_some, Option.bind_some, Bound.symbolic_multiply?_symbolic,
      text]

open Arithmetic

theorem denotes_numeral (n : Numeral) :
    Denotes .factor (symbols none n.text.toList) n.value := by
  obtain ⟨c, digits, hn⟩ := List.exists_cons_of_ne_nil n.ne_nil
  obtain ⟨hc, hdigits⟩ := List.forall_mem_cons.1 (hn ▸ n.isDigit)
  rw [Numeral.value, hn, symbols, if_pos hc, symbols_digits hdigits, Nat.ofDigitChars_cons]
  exact .number _

/-- A text is a product as a factor, if it is a sum and a product unless it has a `+`. -/
theorem denotes_factor {text : String} {n : Nat} (hs : Denotes .sum (symbols none text.toList) n)
    (hp : '+' ∉ text.toList → Denotes .product (symbols none text.toList) n) :
    Denotes .product (symbols none (Bound.factor text).toList) n := by
  unfold Bound.factor
  split
  · next h =>
    have htext : ("(" ++ text ++ ")").toList = '(' :: (text.toList ++ [')']) := by
      simp
    rw [htext, symbols_group]
    exact .factor (.group hs)
  · next h => exact hp (by simpa using h)

/-- The text of an expression is a sum of the right value, and a product if there is no `+`. -/
theorem denotes_text (e : Expression) :
    Denotes .sum (symbols none e.text.toList) e.value ∧
      ('+' ∉ e.text.toList → Denotes .product (symbols none e.text.toList) e.value) := by
  induction e with
  | numeral n =>
    have h : Denotes .product (symbols none n.text.toList) n.value := .factor (denotes_numeral n)
    exact ⟨.product h, fun _ => h⟩
  | sum a b iha ihb =>
    have htext : (sum a b).text.toList = a.text.toList ++ ' ' :: '+' :: ' ' :: b.text.toList := by
      simp [text]
    rw [htext, symbols_infix (by decide) (by decide)]
    exact ⟨iha.1.sum_plus_sum ihb.1, fun h => absurd (by simp) h⟩
  | product a b iha ihb =>
    have htext : (product a b).text.toList =
        (Bound.factor a.text).toList ++ ' ' :: '*' :: ' ' :: (Bound.factor b.text).toList := by
      simp [text]
    rw [htext, symbols_infix (by decide) (by decide)]
    have h := (denotes_factor iha.1 iha.2).product_times_product (denotes_factor ihb.1 ihb.2)
    exact ⟨.product h, fun _ => h⟩

/-- Sums and products of numbers are bounds whose texts mean what they were made from: the grammar
gives the value of the expression and no other, and so does the evaluator. -/
theorem evaluate_bound (e : Expression) :
    ∃ text, e.bound? = some (.symbolic text) ∧ evaluate text = some e.value ∧
      ∀ n, Denotes .sum (symbols none text.toList) n ↔ n = e.value := by
  have hvalue : evaluate e.text = some e.value := evaluate_of_denotes e.denotes_text.1
  refine ⟨e.text, e.bound?_eq, hvalue, fun n => ⟨fun h => ?_, fun h => h ▸ e.denotes_text.1⟩⟩
  exact Option.some.inj ((evaluate_of_denotes h).symm.trans hvalue)

example : evaluate "((1 + 2) * 3) * 4 + 05 * 6" = some 66 := by cbv

end Expression

end GrowthOrder
