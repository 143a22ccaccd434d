import GrowthOrder.Yaml.Scalar
/-!
Cutting a YAML text into tokens. Outside brackets the columns tell where collections begin and end,
and a token is known as a key only when the colon behind it is met; so the scanner keeps the
indentations of the open collections and, for each level of brackets, the token that may yet turn
out to be a key.
-/
namespace GrowthOrder.Yaml

inductive Token
  /-- A text; plain or not. -/
  | scalar (isPlain : Bool) (chars : List Char)
  /-- A collection that begins by its indentation, and the end of one. -/
  | blockSequence
  | blockMapping
  | blockEnd
  | entry
  | key
  | value
  | openBracket
  | closeBracket
  | openBrace
  | closeBrace
  | comma
  | anchor (name : List Char)
  | reference (name : List Char)
  | tag (name : List Char)
  | documentStart
  | documentEnd
  | version
  deriving DecidableEq

/-- A place in a text. -/
structure Mark where
  index : Nat := 0
  line : Nat := 0
  column : Nat := 0

/-- The place behind some characters. -/
def Mark.after (m : Mark) : List Char → Mark
  | [] => m
  | c :: cs =>
    if isBreak c ∧ ¬(c = '\r' ∧ cs.head? = some '\n') then
      Mark.after { index := m.index + 1, line := m.line + 1, column := 0 } cs
    else Mark.after { m with index := m.index + 1, column := m.column + 1 } cs

/-- A token that may be a key: how many tokens precede it, where it stands, and whether nothing else
can stand there. -/
structure Candidate where
  position : Nat
  mark : Mark
  required : Bool

structure Scanner where
  mark : Mark := {}
  tokens : List Token := []
  /-- The columns of the collections that are open by indentation, the innermost first. -/
  indents : List Nat := []
  /-- What may be a key at this level of brackets. -/
  candidate : Option Candidate := none
  /-- What may be a key at the levels around. -/
  outer : List (Option Candidate) := []
  /-- Whether a key can begin here. -/
  keyAllowed : Bool := true

namespace Scanner

/-- Whether the scanner is between brackets. -/
def inFlow (s : Scanner) : Bool :=
  !s.outer.isEmpty

/-- The first column that lies inside the innermost open collection. -/
def innerColumn (s : Scanner) : Nat :=
  match s.indents with
  | [] => 0
  | column :: _ => column + 1

def emit (s : Scanner) (token : Token) : Scanner :=
  { s with tokens := s.tokens ++ [token] }

def advance (s : Scanner) (cs : List Char) : Scanner :=
  { s with mark := s.mark.after cs }

/-- Whether a candidate can no longer become a key: its colon must stand on its line, and not too
far away. -/
def isStale (s : Scanner) (c : Candidate) : Bool :=
  c.mark.line < s.mark.line || c.mark.index + 1024 < s.mark.index

/-- A candidate, unless it is stale; one that had to be a key must not be. -/
def refresh? (s : Scanner) : Option Candidate → Option (Option Candidate)
  | none => some none
  | some c =>
    if s.isStale c then (if c.required then none else some none) else some (some c)

/-- Drops the candidates that are stale. -/
def dropStale? (s : Scanner) : Option Scanner :=
  match s.refresh? s.candidate, s.outer.mapM s.refresh? with
  | some candidate, some outer => some { s with candidate, outer }
  | _, _ => none

/-- Gives the candidate of this level up. -/
def dropCandidate? (s : Scanner) : Option Scanner :=
  if s.candidate.any (·.required) then none else some { s with candidate := none }

/-- Takes the next token as a candidate, where a key can begin. -/
def saveCandidate? (s : Scanner) : Option Scanner :=
  if s.keyAllowed then
    let required := !s.inFlow && s.indents.head? == some s.mark.column
    s.dropCandidate?.map fun s =>
      { s with candidate := some ⟨s.tokens.length, s.mark, required⟩ }
  else some s

/-- Ends the collections that are indented at least so far. -/
def closeBlocks (s : Scanner) (column : Nat) : Scanner :=
  if s.inFlow then s
  else
    let closed := (s.indents.takeWhile (column ≤ ·)).length
    { s with
      indents := s.indents.drop closed
      tokens := s.tokens ++ List.replicate closed .blockEnd }

/-- Begins a collection at a column, unless it is open already; its token is put behind the first
`position` tokens. -/
def openBlock (s : Scanner) (column position : Nat) (token : Token) : Scanner :=
  if s.inFlow ∨ column < s.innerColumn then s
  else
    { s with
      indents := column :: s.indents
      tokens := s.tokens.take position ++ token :: s.tokens.drop position }

/-- A bracket that opens a level. -/
def openFlow? (s : Scanner) (token : Token) : Option Scanner :=
  s.saveCandidate?.map fun s =>
    { s.emit token with
      outer := s.candidate :: s.outer
      candidate := none
      keyAllowed := true }

/-- A bracket that closes a level; one too many is left to the reader of the tokens. -/
def closeFlow? (s : Scanner) (token : Token) : Option Scanner :=
  s.dropCandidate?.map fun s =>
    { s.emit token with
      candidate := (s.outer.head?).join
      outer := s.outer.tail
      keyAllowed := false }

/-- A token that stands before what a collection holds: an item, or a key given as such. -/
def indicator? (s : Scanner) (collection token : Token) (keyAllowed : Bool) : Option Scanner :=
  if !s.inFlow ∧ !s.keyAllowed then none
  else
    (s.openBlock s.mark.column s.tokens.length collection).dropCandidate?.map fun s =>
      { s.emit token with keyAllowed }

/-- A colon: what stands before it is a key, if it can be. -/
def value? (s : Scanner) : Option Scanner :=
  match s.candidate with
  | some c =>
    let s : Scanner :=
      { s with tokens := s.tokens.take c.position ++ .key :: s.tokens.drop c.position }
    let s := s.openBlock c.mark.column c.position .blockMapping
    some { s.emit .value with candidate := none, keyAllowed := false }
  | none =>
    if s.inFlow then some { s.emit .value with keyAllowed := false }
    else if s.keyAllowed then
      some ((s.openBlock s.mark.column s.tokens.length .blockMapping).emit .value)
    else none

/-- A token that can be or begin a key. -/
def leaf? (s : Scanner) (token : Token) (keyAllowed : Bool) : Option Scanner :=
  s.saveCandidate?.map fun s => { s.emit token with keyAllowed }

/-- A token between documents. -/
def boundary? (s : Scanner) (token : Token) : Option Scanner :=
  let s : Scanner :=
    { s with indents := [], tokens := s.tokens ++ s.indents.map fun _ => .blockEnd }
  s.dropCandidate?.map fun s => { s.emit token with keyAllowed := false }

/-- The name of an anchor or of a reference to one. -/
def anchorName? (cs : List Char) : Option (List Char) :=
  let name := cs.takeWhile fun c => c.isAlphanum || c == '_' || c == '-'
  let rest := cs.drop name.length
  let ends := ['?', ':', ',', ']', '\x7d', '%', '@', '\x60']
  if !name.isEmpty ∧ (atSpace rest ∨ rest.head?.any ends.contains) then some name else none

def isTagChar (c : Char) : Bool :=
  c.isAlphanum || ['-', '_', ';', '/', '?', ':', '@', '&', '=', '+', '$', '.', '%', '!', '~', '*',
    '\x27', '(', ')'].contains c

/-- A tag behind its exclamation mark: its full name, and how many characters it takes. -/
def tagName? (flow : Bool) (cs : List Char) : Option (List Char × Nat) :=
  let ended (n : Nat) : Bool := atSpace (cs.drop n) || (flow && (cs.drop n).head? == some ',')
  match cs with
  | '<' :: rest =>
    let name := rest.takeWhile fun c => isTagChar c || [',', '[', ']'].contains c
    if !name.isEmpty ∧ (rest.drop name.length).head? = some '>' ∧ ended (name.length + 2) then
      some (name, name.length + 2)
    else none
  | '!' :: rest =>
    let name := rest.takeWhile isTagChar
    if !name.isEmpty ∧ ended (name.length + 1) then
      some ("tag:yaml.org,2002:".toList ++ name, name.length + 1)
    else none
  | cs =>
    let name := cs.takeWhile isTagChar
    if !name.contains '!' ∧ ended name.length then some ('!' :: name, name.length) else none

/-- The directive that names the version of the language; there is no other. -/
def version? (cs : List Char) : Option Nat :=
  let line := cs.takeWhile fun c => !isBreak c
  let words := ((String.ofList line).map fun c => if c = '\t' then ' ' else c).splitOn " "
  match words.filter (· ≠ "") with
  | "%YAML" :: version :: rest =>
    let isLast := rest.head?.all (·.startsWith "#")
    if (version = "1.1" ∨ version = "1.2") ∧ isLast then some line.length else none
  | _ => none

/-- The token that begins here, and how many characters it takes. -/
def token? (s : Scanner) (c : Char) (cs : List Char) : Option (Scanner × Nat) :=
  let column := s.mark.column
  if column = 0 ∧ c = '%' then
    match version? (c :: cs) with
    | some n => (s.boundary? .version).map (·, n)
    | none => none
  else if column = 0 ∧ atMarker '-' (c :: cs) then (s.boundary? .documentStart).map (·, 3)
  else if column = 0 ∧ atMarker '.' (c :: cs) then (s.boundary? .documentEnd).map (·, 3)
  else if c = '[' then (s.openFlow? .openBracket).map (·, 1)
  else if c = '\x7b' then (s.openFlow? .openBrace).map (·, 1)
  else if c = ']' then (s.closeFlow? .closeBracket).map (·, 1)
  else if c = '\x7d' then (s.closeFlow? .closeBrace).map (·, 1)
  else if c = ',' then
    s.dropCandidate?.map fun s => ({ s.emit .comma with keyAllowed := true }, 1)
  else if c = '-' ∧ atSpace cs then (s.indicator? .blockSequence .entry true).map (·, 1)
  else if c = '?' ∧ (s.inFlow ∨ atSpace cs) then
    (s.indicator? .blockMapping .key (!s.inFlow)).map (·, 1)
  else if c = ':' ∧ (s.inFlow ∨ atSpace cs) then s.value?.map (·, 1)
  else if c = '*' then
    match anchorName? cs with
    | some name => (s.leaf? (.reference name) false).map (·, name.length + 1)
    | none => none
  else if c = '&' then
    match anchorName? cs with
    | some name => (s.leaf? (.anchor name) false).map (·, name.length + 1)
    | none => none
  else if c = '!' then
    match tagName? s.inFlow cs with
    | some (name, n) => (s.leaf? (.tag name) false).map (·, n + 1)
    | none => none
  else if (c = '|' ∨ c = '>') ∧ !s.inFlow then
    match s.dropCandidate?, block? (c = '>') s.innerColumn cs with
    | some s, some (chars, n) =>
      some ({ s.emit (.scalar false chars) with keyAllowed := true }, n + 1)
    | _, _ => none
  else if c = '\x27' then
    match single? (column + 1) cs with
    | some (chars, n) => (s.leaf? (.scalar false chars) false).map (·, n + 1)
    | none => none
  else if c = '"' then
    match double? (column + 1) cs with
    | some (chars, n) => (s.leaf? (.scalar false chars) false).map (·, n + 1)
    | none => none
  else if (c = '-' ∧ !(cs.head?.any isBlank)) ∨ ((c = '?' ∨ c = ':') ∧ !s.inFlow) ∨
      !([' ', '\t', '-', '?', ':', '#', '%', '@', '\x60', '|', '>'].contains c || isBreak c) then
    match plain? s.inFlow s.innerColumn column [] false (c :: cs) with
    | some plain => (s.leaf? (.scalar true plain.chars) plain.endsLine).map (·, plain.extent)
    | none => none
  else none

/-- Takes what begins with `c`: a blank, a comment, a line break or a token. -/
def step? (s : Scanner) (c : Char) (cs : List Char) : Option (Scanner × Nat) :=
  if c = ' ' ∨ (c = '\t' ∧ (s.inFlow ∨ !s.keyAllowed)) ∨ (c = '\ufeff' ∧ s.mark.index = 0) then
    some (s, 1)
  else if c = '#' then some (s, (cs.takeWhile fun c => !isBreak c).length + 1)
  else if isBreak c then some ({ s with keyAllowed := s.keyAllowed || !s.inFlow }, 1)
  else
    match s.dropStale? with
    | none => none
    | some s => (s.closeBlocks (s.mark.column + 1)).token? c cs

/-- Ends the text. -/
def finish? (s : Scanner) : Option (List Token) :=
  let tokens := s.tokens ++ s.indents.map fun _ => .blockEnd
  match s.dropStale? with
  | none => none
  | some s => s.dropCandidate?.map fun _ => tokens

/-- The tokens of a text from here on. -/
def run? (s : Scanner) : List Char → Option (List Token)
  | [] => s.finish?
  | c :: cs =>
    match s.step? c cs with
    | none => none
    | some (s', n) => run? (s'.advance ((c :: cs).take n)) (cs.drop (n - 1))
termination_by cs => cs.length

end Scanner

/-- The characters that can stand in a text. -/
def isAllowed (c : Char) : Bool :=
  let n := c.toNat
  n == 9 || n == 10 || n == 13 || (32 ≤ n && n ≤ 126) || n == 0x85 || (0xa0 ≤ n && n ≤ 0xfffd) ||
    0x10000 ≤ n

/-- The tokens of a text. A mark of the byte order may stand in front. -/
def tokens? (text : String) : Option (List Token) :=
  let cs :=
    match text.toList with
    | '\ufeff' :: cs => cs
    | cs => cs
  if cs.all isAllowed then Scanner.run? {} cs else none

end GrowthOrder.Yaml
