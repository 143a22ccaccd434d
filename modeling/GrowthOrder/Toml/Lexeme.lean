import GrowthOrder.Toml.Number
/-!
The small parts of a TOML text: blanks, comments, quoted texts and keys. A reader gives what it has
read and how many characters that took, or nothing if the text is not of the form.
-/
namespace GrowthOrder.Toml

def isBlank (c : Char) : Bool :=
  c == ' ' || c == '\t'

/-- How many blanks a text begins with. -/
def blanks (cs : List Char) : Nat :=
  (cs.takeWhile isBlank).length

/-- The characters that can stand in a comment: all but control characters. -/
def isPlain (c : Char) : Bool :=
  c == '\t' || (32 ≤ c.toNat && c.toNat ≠ 127)

/-- How many characters belong to the comment with which a text begins. -/
def comment : List Char → Nat
  | '#' :: cs => (cs.takeWhile isPlain).length + 1
  | _ => 0

/-- How many characters belong to the end of line with which a text begins. -/
def newline : List Char → Nat
  | '\n' :: _ => 1
  | '\r' :: '\n' :: _ => 2
  | _ => 0

/-- How many characters belong to the rest of a line on which nothing but a comment may follow. -/
def lineEnd? (cs : List Char) : Option Nat :=
  let n := blanks cs
  let n := n + comment (cs.drop n)
  if cs.length ≤ n then some n
  else
    match newline (cs.drop n) with
    | 0 => none
    | m => some (n + m)

/-- How many characters belong to the blanks and ends of lines with which a text begins, and to the
comments among them if there can be any. -/
def gap (comments : Bool) : List Char → Nat
  | [] => 0
  | c :: cs =>
    if isBlank c ∨ c = '\n' ∨ (c = '\r' ∧ cs.head? = some '\n') then gap comments cs + 1
    else if comments ∧ c = '#' then
      let n := (cs.takeWhile isPlain).length
      gap comments (cs.drop n) + n + 1
    else 0
termination_by cs => cs.length

/-- What stands for one character after a backslash. -/
def escape? : List Char → Option (Char × Nat)
  | 'b' :: _ => some ('\x08', 1)
  | 't' :: _ => some ('\t', 1)
  | 'n' :: _ => some ('\n', 1)
  | 'f' :: _ => some ('\x0c', 1)
  | 'r' :: _ => some ('\r', 1)
  | '"' :: _ => some ('"', 1)
  | '\\' :: _ => some ('\\', 1)
  | 'u' :: cs => (Text.numberedChar? 4 cs).map (·, 5)
  | 'U' :: cs => (Text.numberedChar? 8 cs).map (·, 9)
  | _ => none

/-- The text up to a double quote, with escapes. -/
def basic? : List Char → Option (List Char × Nat)
  | [] => none
  | c :: cs =>
    if c = '"' then some ([], 1)
    else if c = '\\' then
      match escape? cs with
      | none => none
      | some (e, n) => (basic? (cs.drop n)).map fun (s, m) => (e :: s, m + n + 1)
    else if isPlain c then (basic? cs).map fun (s, m) => (c :: s, m + 1)
    else none
termination_by cs => cs.length

/-- The text up to a single quote, as it stands. -/
def literal? : List Char → Option (List Char × Nat)
  | [] => none
  | c :: cs =>
    if c = '\x27' then some ([], 1)
    else if isPlain c then (literal? cs).map fun (s, m) => (c :: s, m + 1)
    else none

/-- How many characters belong to the blanks and ends of lines with which a text begins, if there is
an end of line. -/
def brokenLine? (cs : List Char) : Option Nat :=
  let n := blanks cs
  match newline (cs.drop n) with
  | 0 => none
  | m => some (n + m + gap false (cs.drop (n + m)))

/-- The text up to three quotes `q`, over several lines. A further quote or two may stand directly
before them. If escapes are allowed, a backslash at the end of a line takes the blanks and line ends
that follow away. -/
def long? (q : Char) (escapes : Bool) : List Char → Option (List Char × Nat)
  | [] => none
  | c :: cs =>
    let quotes := ((c :: cs).takeWhile (· = q)).length
    if 3 ≤ quotes then
      let taken := min quotes 5
      some (List.replicate (taken - 3) q, taken)
    else if escapes ∧ c = '\\' then
      match brokenLine? cs with
      | some n => (long? q escapes (cs.drop n)).map fun (s, m) => (s, m + n + 1)
      | none =>
        match escape? cs with
        | none => none
        | some (e, n) => (long? q escapes (cs.drop n)).map fun (s, m) => (e :: s, m + n + 1)
    else if c = '\r' ∧ cs.head? = some '\n' then
      (long? q escapes (cs.drop 1)).map fun (s, m) => ('\n' :: s, m + 2)
    else if c = '\n' ∨ isPlain c then (long? q escapes cs).map fun (s, m) => (c :: s, m + 1)
    else none
termination_by cs => cs.length
decreasing_by
  all_goals simp only [List.length_drop, List.length_cons]
  all_goals omega

/-- A long text after its three opening quotes; an end of line directly behind them does not
count. -/
def afterOpening? (q : Char) (escapes : Bool) (cs : List Char) : Option (List Char × Nat) :=
  let n := newline cs
  (long? q escapes (cs.drop n)).map fun (s, m) => (s, m + n + 3)

/-- A quoted text of any form. -/
def quoted? : List Char → Option (List Char × Nat)
  | '"' :: '"' :: '"' :: cs => afterOpening? '"' true cs
  | '\x27' :: '\x27' :: '\x27' :: cs => afterOpening? '\x27' false cs
  | '"' :: cs => (basic? cs).map fun (s, n) => (s, n + 1)
  | '\x27' :: cs => (literal? cs).map fun (s, n) => (s, n + 1)
  | _ => none

/-- One name of a key. -/
def name? : List Char → Option (String × Nat)
  | '"' :: cs => (basic? cs).map fun (s, n) => (String.ofList s, n + 1)
  | '\x27' :: cs => (literal? cs).map fun (s, n) => (String.ofList s, n + 1)
  | cs =>
    let bare := cs.takeWhile fun c => c.isAlphanum || c == '_' || c == '-'
    if bare.isEmpty then none else some (String.ofList bare, bare.length)

/-- The names of a key, with the blanks around them. -/
def names? : List Char → Option (List String × Nat)
  | [] => none
  | c :: cs =>
    let a := blanks (c :: cs)
    match name? ((c :: cs).drop a) with
    | none => none
    | some (name, n) =>
      let b := a + n + blanks ((c :: cs).drop (a + n))
      match (c :: cs).drop b with
      | '.' :: _ => (names? (cs.drop b)).map fun (names, m) => (name :: names, m + b + 1)
      | _ => some ([name], b)
termination_by cs => cs.length

/-- The most names that a key can have. -/
def keyLimit : Nat := 79

/-- A key: the names before the last, and the last. -/
def key? (cs : List Char) : Option ((List String × String) × Nat) :=
  match names? cs with
  | none => none
  | some (names, n) =>
    if names.length ≤ keyLimit then
      names.getLast?.map fun last => ((names.dropLast, last), n)
    else none

end GrowthOrder.Toml
