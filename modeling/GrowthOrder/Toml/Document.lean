import GrowthOrder.Toml
import GrowthOrder.Toml.Lexeme
/-!
TOML documents: values, the statements of a document, and the tables that they make up.
-/
namespace GrowthOrder.Toml

def isWordChar (c : Char) : Bool :=
  c.isAlphanum || c == '_' || c == '+' || c == '-' || c == '.' || c == ':'

/-- How many characters belong to the number or word with which a text begins. After a date a time
may follow behind a blank. -/
def wordExtent (cs : List Char) : Nat :=
  let word := cs.takeWhile isWordChar
  match cs.drop word.length with
  | ' ' :: a :: b :: ':' :: rest =>
    if isDate word ∧ a.isDigit ∧ b.isDigit then
      word.length + 4 + (rest.takeWhile isWordChar).length
    else word.length
  | _ => word.length

/-- A value without parts. -/
def scalar? (cs : List Char) : Option (Toml × Nat) :=
  match quoted? cs with
  | some (s, n) => some (.text (String.ofList s), n)
  | none =>
    let n := wordExtent cs
    let word := cs.take n
    if word = ['t', 'r', 'u', 'e'] then some (.bool true, n)
    else if word = ['f', 'a', 'l', 's', 'e'] then some (.bool false, n)
    else if isNumber word then some (.number, n)
    else none

/-- The items of an array up to its bracket, each read by `item`. -/
def items? {α : Type} (item : List Char → Option (α × Nat)) : List Char → Option (List α × Nat)
  | [] => none
  | c :: cs =>
    let all := c :: cs
    let a := gap true all
    match all.drop a with
    | [] => none
    | ']' :: _ => some ([], a + 1)
    | d :: ds =>
      match item (d :: ds) with
      | none => none
      | some (value, n) =>
        let b := a + n + gap true (all.drop (a + n))
        match all.drop b with
        | ',' :: _ => (items? item (cs.drop b)).map fun (values, m) => (value :: values, m + b + 1)
        | ']' :: _ => some ([value], b + 1)
        | _ => none
termination_by cs => cs.length

/-- A key, a sign of equality and a value, with the blanks between them. -/
def pair? {α : Type} (value : List Char → Option (α × Nat)) (cs : List Char) :
    Option ((List String × String × α) × Nat) :=
  match key? cs with
  | none => none
  | some ((path, name), n) =>
    match cs.drop n with
    | '=' :: rest =>
      let a := blanks rest
      (value (rest.drop a)).map fun (v, m) => ((path, name, v), n + 1 + a + m)
    | _ => none

/-- The pairs of a table in braces up to its closing brace, after at least one. -/
def pairs? {α : Type} (value : List Char → Option (α × Nat)) :
    List Char → Option (List (List String × String × α) × Nat)
  | [] => none
  | c :: cs =>
    match pair? value (c :: cs) with
    | none => none
    | some (pair, n) =>
      let a := n + blanks ((c :: cs).drop n)
      match (c :: cs).drop a with
      | ',' :: _ => (pairs? value (cs.drop a)).map fun (pairs, m) => (pair :: pairs, m + a + 1)
      | '\x7d' :: _ => some ([pair], a + 1)
      | _ => none
termination_by cs => cs.length

/-- The pairs of a table after its opening brace. -/
def braced? {α : Type} (value : List Char → Option (α × Nat)) (cs : List Char) :
    Option (List (List String × String × α) × Nat) :=
  let n := blanks cs
  match cs.drop n with
  | '\x7d' :: _ => some ([], n + 1)
  | _ => pairs? value cs

/-- A value in which arrays and tables lie at most so deep in one another. -/
def value? : (depth : Nat) → List Char → Option (Toml × Nat)
  | depth + 1, '[' :: cs => (items? (value? depth) cs).map fun (items, n) => (.array items, n + 1)
  | depth + 1, '\x7b' :: cs =>
    match braced? (value? depth) cs with
    | none => none
    | some (pairs, n) => (inlineTable? pairs).map (·, n + 1)
  | _, cs => scalar? cs

/-- How deep arrays and tables can lie in one another. -/
def depthLimit : Nat := 79

/-- A header of a table: the key in brackets. -/
def header? : List Char → Option (Statement × Nat)
  | '[' :: '[' :: cs =>
    match key? cs with
    | none => none
    | some ((path, name), n) =>
      match cs.drop n with
      | ']' :: ']' :: _ => some (.repeated path name, n + 4)
      | _ => none
  | '[' :: cs =>
    match key? cs with
    | none => none
    | some ((path, name), n) =>
      match cs.drop n with
      | ']' :: _ => some (.header path name, n + 2)
      | _ => none
  | _ => none

/-- A statement and the rest of its line. -/
def statement? (cs : List Char) : Option (Statement × Nat) :=
  let read :=
    if cs.head? = some '[' then header? cs
    else
      (pair? (value? depthLimit) cs).map fun ((path, name, value), n) =>
        (.pair path name value, n)
  match read with
  | none => none
  | some (statement, n) => (lineEnd? (cs.drop n)).map fun m => (statement, n + m)

/-- The statements of a document. -/
def statements? : List Char → Option (List Statement)
  | [] => some []
  | c :: cs =>
    if isBlank c ∨ c = '\n' ∨ (c = '\r' ∧ cs.head? = some '\n') then statements? cs
    else if c = '#' then
      match lineEnd? (c :: cs) with
      | none => none
      | some n => statements? (cs.drop (n - 1))
    else
      match statement? (c :: cs) with
      | none => none
      | some (statement, n) => (statements? (cs.drop (n - 1))).map (statement :: ·)
termination_by cs => cs.length

/-- The fields of the document that a text is. A mark of the byte order may stand in front. -/
def read? (text : String) : Option Fields :=
  let cs :=
    match text.toList with
    | '\ufeff' :: cs => cs
    | cs => cs
  (statements? cs).bind ofStatements?

end GrowthOrder.Toml
