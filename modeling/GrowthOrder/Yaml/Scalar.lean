import GrowthOrder.Text.Hex
/-!
The texts of YAML: plain, quoted and in blocks. A reader gives the text and how many characters it
took, or nothing if the text is not of the form. Within a text, the blanks around a line break and
the break itself become one blank, and further breaks stay.
-/
namespace GrowthOrder.Yaml

def isBlank (c : Char) : Bool :=
  c == ' ' || c == '\t'

def isBreak (c : Char) : Bool :=
  c == '\n' || c == '\r' || c == '\u0085' || c == '\u2028' || c == '\u2029'

/-- The break that a character leaves in a text. -/
def keptBreak (c : Char) : Char :=
  if c == '\u2028' || c == '\u2029' then c else '\n'

/-- Whether a text ends here, or a blank or line break stands here. -/
def atSpace : List Char → Bool
  | [] => true
  | c :: _ => isBlank c || isBreak c

/-- Whether three characters `c` stand here by themselves. -/
def atMarker (c : Char) (cs : List Char) : Bool :=
  cs.take 3 == [c, c, c] && atSpace (cs.drop 3)

/-- Whether one of the marks between documents stands here. -/
def atDocumentMarker (cs : List Char) : Bool :=
  atMarker '-' cs || atMarker '.' cs

/-- Blanks and line breaks between two parts of a text: the blanks before the first break, the
breaks, how many characters there are, and the column behind them. -/
structure Gap where
  blanks : List Char := []
  breaks : List Char := []
  extent : Nat := 0
  column : Nat

/-- Reads a gap. After a break a tab may not stand before a certain column. -/
def Gap.read? (firstTab : Nat) (g : Gap) : List Char → Option Gap
  | [] => some g
  | c :: cs =>
    if isBlank c then
      if g.breaks.isEmpty then
        read? firstTab
          { g with blanks := g.blanks ++ [c], extent := g.extent + 1, column := g.column + 1 } cs
      else if c = '\t' ∧ g.column < firstTab then none
      else read? firstTab { g with extent := g.extent + 1, column := g.column + 1 } cs
    else if c = '\r' ∧ cs.head? = some '\n' then
      read? firstTab { g with extent := g.extent + 1 } cs
    else if isBreak c then
      read? firstTab
        { g with breaks := g.breaks ++ [keptBreak c], extent := g.extent + 1, column := 0 } cs
    else some g

/-- The text that line breaks leave: one becomes a blank, of several the first goes. -/
def folded : List Char → List Char
  | ['\n'] => [' ']
  | '\n' :: breaks => breaks
  | breaks => breaks

/-- The text that a gap leaves. -/
def Gap.text (g : Gap) : List Char :=
  if g.breaks.isEmpty then g.blanks else folded g.breaks

/-! Plain texts. -/

/-- The indicators that have a meaning between brackets only. -/
def isFlowIndicator (c : Char) : Bool :=
  [',', '[', ']', '\x7b', '\x7d'].contains c

/-- How many characters belong to the part of a plain text up to the next blank or indicator.
Between brackets a colon right before another indicator is a fault. -/
def partExtent? (flow : Bool) : List Char → Option Nat
  | [] => some 0
  | c :: cs =>
    if isBlank c ∨ isBreak c then some 0
    else if flow ∧ c = ':' ∧ (cs.head?.any fun d => d == '?' || isFlowIndicator d) then none
    else if (c = ':' ∧ atSpace cs) ∨ (flow ∧ isFlowIndicator c) then some 0
    else (partExtent? flow cs).map (· + 1)

/-- What was read of a plain text: its characters, how many were taken with the blanks behind them,
and whether a line ended among those. -/
structure Plain where
  chars : List Char
  extent : Nat
  endsLine : Bool

/-- Reads on in a plain text at a column, after a gap that it has only if it goes on. It ends at a
line that begins before column `indent`. -/
def plain? (flow : Bool) (indent column : Nat) (before : List Char) (endsLine : Bool) :
    List Char → Option Plain
  | [] => some ⟨[], 0, endsLine⟩
  | c :: cs =>
    if c = '#' ∨ (column = 0 ∧ atDocumentMarker (c :: cs)) then some ⟨[], 0, endsLine⟩
    else
      match partExtent? flow (c :: cs) with
      | none => none
      | some 0 => some ⟨[], 0, endsLine⟩
      | some (n + 1) =>
        let head := before ++ (c :: cs).take (n + 1)
        match Gap.read? indent { column := column + n + 1 } (cs.drop n) with
        | none => none
        | some gap =>
          let broken := !gap.breaks.isEmpty
          if gap.extent = 0 ∨ (!flow ∧ gap.column < indent) then
            some ⟨head, n + 1 + gap.extent, broken⟩
          else
            (plain? flow indent gap.column gap.text broken (cs.drop (n + gap.extent))).map
              fun more => ⟨head ++ more.chars, n + 1 + gap.extent + more.extent, more.endsLine⟩
termination_by cs => cs.length

/-! Quoted texts. -/

/-- The text up to a single quote; two of them stand for one. -/
def single? (column : Nat) : List Char → Option (List Char × Nat)
  | [] => none
  | c :: cs =>
    if column = 0 ∧ atDocumentMarker (c :: cs) then none
    else if isBlank c ∨ isBreak c then
      match Gap.read? 0 { column } (c :: cs) with
      | none => none
      | some gap =>
        (single? gap.column (cs.drop (gap.extent - 1))).map fun (s, n) =>
          (gap.text ++ s, gap.extent + n)
    else if c = '\x27' then
      if cs.head? = some '\x27' then
        (single? (column + 2) (cs.drop 1)).map fun (s, n) => ('\x27' :: s, n + 2)
      else some ([], 1)
    else (single? (column + 1) cs).map fun (s, n) => (c :: s, n + 1)
termination_by cs => cs.length

/-- What stands for one character after a backslash. -/
def escape? : List Char → Option (Char × Nat)
  | '0' :: _ => some ('\x00', 1)
  | 'a' :: _ => some ('\x07', 1)
  | 'b' :: _ => some ('\x08', 1)
  | 't' :: _ => some ('\t', 1)
  | '\t' :: _ => some ('\t', 1)
  | 'n' :: _ => some ('\n', 1)
  | 'v' :: _ => some ('\x0b', 1)
  | 'f' :: _ => some ('\x0c', 1)
  | 'r' :: _ => some ('\r', 1)
  | 'e' :: _ => some ('\x1b', 1)
  | ' ' :: _ => some (' ', 1)
  | '"' :: _ => some ('"', 1)
  | '/' :: _ => some ('/', 1)
  | '\\' :: _ => some ('\\', 1)
  | 'N' :: _ => some ('\u0085', 1)
  | '_' :: _ => some ('\u00a0', 1)
  | 'L' :: _ => some ('\u2028', 1)
  | 'P' :: _ => some ('\u2029', 1)
  | 'x' :: cs => (Text.numberedChar? 2 cs).map (·, 3)
  | 'u' :: cs => (Text.numberedChar? 4 cs).map (·, 5)
  | 'U' :: cs => (Text.numberedChar? 8 cs).map (·, 9)
  | _ => none

/-- The text up to a double quote, with escapes. A line break behind a backslash goes, together with
the blanks around it. -/
def double? (column : Nat) : List Char → Option (List Char × Nat)
  | [] => none
  | c :: cs =>
    if column = 0 ∧ atDocumentMarker (c :: cs) then none
    else if isBlank c ∨ isBreak c then
      match Gap.read? 0 { column } (c :: cs) with
      | none => none
      | some gap =>
        (double? gap.column (cs.drop (gap.extent - 1))).map fun (s, n) =>
          (gap.text ++ s, gap.extent + n)
    else if c = '"' then some ([], 1)
    else if c = '\\' then
      if cs.head?.any isBreak then
        match Gap.read? 0 { column } cs with
        | none => none
        | some gap =>
          (double? gap.column (cs.drop gap.extent)).map fun (s, n) =>
            (gap.breaks.drop 1 ++ s, gap.extent + n + 1)
      else
        match escape? cs with
        | none => none
        | some (e, k) =>
          (double? (column + k + 1) (cs.drop k)).map fun (s, n) => (e :: s, k + n + 1)
    else (double? (column + 1) cs).map fun (s, n) => (c :: s, n + 1)
termination_by cs => cs.length

/-! Texts in blocks. -/

/-- What becomes of the line breaks at the end of a block. -/
inductive Chomping
  | strip
  | clip
  | keep
  deriving DecidableEq

/-- The first line of a block: whether lines are folded, the indentation it demands, and what
becomes of the breaks at its end. -/
structure BlockHeader where
  folds : Bool
  indent : Option Nat := none
  chomping : Chomping := .clip

/-- Reads the marks behind the indicator of a block: a digit and a sign, in either order. -/
def BlockHeader.read? (folds : Bool) (cs : List Char) : Option (BlockHeader × Nat) :=
  let sign? (c : Char) : Option Chomping :=
    if c = '+' then some .keep else if c = '-' then some .strip else none
  let digit? (c : Char) : Option Nat :=
    if '1' ≤ c ∧ c ≤ '9' then some (c.toNat - 48) else none
  let marks := cs.takeWhile fun c => c == '+' || c == '-' || c.isDigit
  match marks with
  | [] => some ({ folds }, 0)
  | [a] =>
    match sign? a, digit? a with
    | some chomping, _ => some ({ folds, chomping }, 1)
    | none, some n => some ({ folds, indent := some n }, 1)
    | none, none => none
  | [a, b] =>
    match sign? a, digit? b, digit? a, sign? b with
    | some chomping, some n, _, _ => some ({ folds, indent := some n, chomping }, 2)
    | _, _, some n, some chomping => some ({ folds, indent := some n, chomping }, 2)
    | _, _, _, _ => none
  | _ => none

/-- A line and the break that ends it, if one does. -/
structure Line where
  chars : List Char
  ending : List Char
  deriving Inhabited

/-- How many characters a line takes. -/
def Line.extent (line : Line) : Nat :=
  line.chars.length + line.ending.length

/-- The break that a line leaves in a text. -/
def Line.kept (line : Line) : List Char :=
  (line.ending.getLast?.map keptBreak).toList

/-- The lines of a text. -/
def lines : List Char → List Line
  | [] => []
  | '\r' :: '\n' :: cs => ⟨[], ['\r', '\n']⟩ :: lines cs
  | c :: cs =>
    if isBreak c then ⟨[], [c]⟩ :: lines cs
    else
      match lines cs with
      | [] => [⟨[c], []⟩]
      | line :: rest => { line with chars := c :: line.chars } :: rest

/-- How many blanks a line begins with. -/
def Line.indent (line : Line) : Nat :=
  (line.chars.takeWhile (· = ' ')).length

/-- The indentation of the first line that is more than blanks, or the deepest before it. A tab may
not stand in it. -/
def deepest? : List Line → Option Nat
  | [] => some 0
  | line :: rest =>
    match line.chars.drop line.indent with
    | [] => (deepest? rest).map (max line.indent)
    | c :: _ => if c = '\t' then none else some line.indent

/-- What was read of a block: its text up to the last line, that line's break, the breaks behind it,
whether that line began with a blank, and how many characters were taken. -/
structure Block where
  chars : List Char := []
  ending : List Char := []
  breaks : List Char := []
  startsBlank : Bool := false
  extent : Nat := 0

/-- The text with which a further line begins: the breaks before it, folded if lines are and neither
of the two begins with a blank. -/
def Block.joint (b : Block) (folds startsBlank : Bool) : List Char :=
  if folds ∧ b.ending.head? = some '\n' ∧ !b.startsBlank ∧ !startsBlank then
    (if b.breaks.isEmpty then [' '] else b.breaks)
  else b.ending ++ b.breaks

/-- Reads the lines of a block that are indented so far, and the empty ones among them. A tab may
not stand in the indentation. -/
def Block.read? (folds : Bool) (indent : Nat) (b : Block) : List Line → Option Block
  | [] => some b
  | line :: rest =>
    let chars := line.chars.drop (min line.indent indent)
    if line.indent < indent ∧ chars.head? = some '\t' then none
    else if chars.isEmpty then
      read? folds indent
        { b with breaks := b.breaks ++ line.kept, extent := b.extent + line.extent } rest
    else if line.indent < indent then some b
    else
      let startsBlank := chars.head?.any isBlank
      read? folds indent
        { chars := b.chars ++ b.joint folds startsBlank ++ chars
          ending := line.kept
          breaks := []
          startsBlank
          extent := b.extent + line.extent } rest

/-- The text of a block. -/
def Block.text (b : Block) : Chomping → List Char
  | .strip => b.chars
  | .clip => b.chars ++ b.ending
  | .keep => b.chars ++ b.ending ++ b.breaks

/-- How many characters follow the marks of a block's first line up to its end. -/
def restOfHeader? (cs : List Char) : Option Nat :=
  let blanks := (cs.takeWhile isBlank).length
  let comment :=
    if (cs.drop blanks).head? = some '#' then
      ((cs.drop blanks).takeWhile fun c => !isBreak c).length
    else 0
  match lines (cs.drop (blanks + comment)) with
  | [] => some (blanks + comment)
  | line :: _ => if line.chars.isEmpty then some (blanks + comment + line.extent) else none

/-- The text of a block behind its indicator, inside a collection of which `outer` is the first
inner column. -/
def block? (folds : Bool) (outer : Nat) (cs : List Char) : Option (List Char × Nat) :=
  match BlockHeader.read? folds cs with
  | none => none
  | some (header, n) =>
    match restOfHeader? (cs.drop n) with
    | none => none
    | some m =>
      let body := lines (cs.drop (n + m))
      let indent? :=
        match header.indent with
        | some k => some (outer - 1 + k)
        | none => (deepest? body).map fun k => max k (max outer 1)
      match indent? with
      | none => none
      | some indent =>
        (Block.read? folds indent {} body).map fun b => (b.text header.chomping, n + m + b.extent)

end GrowthOrder.Yaml
