import GrowthOrder.Dialect
import GrowthOrder.Construct.Subscript
import GrowthOrder.Construct.Header
/-!
Reading a stream of tokens as constructs. Each construct begins with the token at hand and takes a
number of the tokens after it; reading goes on behind these, so it ends. The token before a
construct is known to the reader, whatever construct took it. Reading never fails.
-/
namespace GrowthOrder

/-- Whether the next token has this text. -/
def nextIs (ts : List Token) (text : String) : Bool :=
  ts.head?.any (·.is text)

/-- The arguments behind an opening parenthesis, with `depth` more parentheses open, and how many
tokens they take. Outside inner parentheses a semicolon or a brace ends them without being
taken. -/
def Arguments.read (d : Dialect) (depth : Nat) : List Token → Arguments × Nat
  | [] => (.done false, 0)
  | t :: rest =>
    if depth = 0 ∧ (t.is ";" ∨ t.is "\x7b" ∨ t.is "\x7d") then (.done false, 0)
    else if depth = 0 ∧ t.is ")" then (.done true, 1)
    else
      let inner := if t.is "(" then depth + 1 else if t.is ")" then depth - 1 else depth
      if d.isCallee t && nextIs rest "(" then
        let (arguments, n) := read d 0 rest.tail
        let (more, m) := read d inner (rest.drop (n + 1))
        (.call t.text arguments more, n + m + 2)
      else
        let (more, m) := read d inner rest
        (.word t.text more, m + 1)
termination_by ts => ts.length

namespace Construct

/-- What follows the parenthesis that closes a parameter list, `depth` parentheses being open. -/
def afterParameters : Nat → List Token → Option (List Token)
  | _, [] => none
  | depth, t :: rest =>
    if t.is "(" then afterParameters (depth + 1) rest
    else if t.is ")" then
      if depth ≤ 1 then some rest else afterParameters (depth - 1) rest
    else afterParameters depth rest

/-- Whether a parameter list comes next and after it a body, before any semicolon, closing brace or
further closing parenthesis. -/
def hasBody (ts : List Token) : Bool :=
  match afterParameters 0 ts with
  | none => false
  | some rest =>
    (rest.find? fun t => t.is "\x7b" || t.is ";" || t.is "\x7d" || t.is ")").any (·.is "\x7b")

/-- Whether a token can be the last one of a return type. -/
def endsType (g : Grammar) (t : Token) : Bool :=
  match t.kind with
  | .identifier => true
  | .keyword => g.action? t.text == some .typeDeclaration
  | _ => t.is "*" || t.is "]" || t.is ">"

/-- Whether a statement begins behind this token, or at the beginning of the tokens. -/
def beginsStatement (previous : Option Token) : Bool :=
  previous.all fun t => t.is ";" || t.is "\x7b" || t.is "\x7d"

/-- A type and a name before a parameter list: a definition if it has a body, else a declaration. -/
def function (typeName name : String) (rest : List Token) : Construct :=
  if hasBody rest then scope (.functionDeclaration name) name
  else leaf (.typeDeclaration { typeName, name := some name }) typeName

/-- What a type declares behind its stars, and how many tokens that takes. -/
def declarator (typeName : String) : List Token → Construct × Nat
  | [] => (leaf (.typeDeclaration { typeName }) typeName, 0)
  | t :: rest =>
    if t.isIdentifier && nextIs rest "(" then (function typeName t.text rest, 1)
    else if t.isIdentifier && nextIs rest "[" then
      let (dimensions, n) := Subscript.dimensions rest
      (typedArray typeName (some t.text) dimensions, n + 1)
    else if t.is "[" then
      let (dimensions, n) := Subscript.dimensions (t :: rest)
      match (t :: rest).drop n with
      | name :: after =>
        if name.isIdentifier then
          if nextIs after "(" then (function (typeName ++ "[]") name.text after, n + 1)
          else (typedArray typeName (some name.text) dimensions, n + 1)
        else (typedArray typeName none dimensions, n)
      | [] => (typedArray typeName none dimensions, n)
    else if t.isIdentifier then
      (leaf (.typeDeclaration { typeName, name := some t.text }) typeName, 1)
    else (leaf (.typeDeclaration { typeName }) typeName, 0)

/-- A type and what it declares; stars before a name are passed over. -/
def declaration (typeName : String) (rest : List Token) : Construct × Nat :=
  let stars := (rest.takeWhile (·.is "*")).length
  let skipped := if (rest[stars]?).any Token.isIdentifier then stars else 0
  let (construct, n) := declarator typeName (rest.drop skipped)
  (construct, skipped + n)

/-- A name before a parenthesis: a definition, a routine of known cost, or a call. -/
def callSite (d : Dialect) (previous : Option Token) (name : String) (rest : List Token) :
    Construct × Nat :=
  if previous.any (endsType d.grammar) && hasBody rest then
    (scope (.functionDeclaration name) name, 0)
  else if d.isIntrinsic name then (leaf .expression name, 0)
  else if d.grammar.isAllocator name then (leaf .newInstance name, 0)
  else
    let (arguments, n) := Arguments.read d 0 rest.tail
    (call name arguments, n + 1)

/-- A token without an action of its own. -/
def plain (d : Dialect) (previous : Option Token) (t : Token) (rest : List Token) :
    Construct × Nat :=
  if t.is "\x7d" then (close, 0)
  else if t.isIdentifier && nextIs rest "(" then callSite d previous t.text rest
  else if t.isIdentifier && beginsStatement previous && Subscript.endsStatement rest then
    let (dimensions, n) := Subscript.dimensions rest
    (bareArray t.text dimensions, n)
  else (leaf .expression t.text, 0)

/-- A keyword with an action. -/
def keyword (g : Grammar) (previous : Option Token) (text : String) (rest : List Token) :
    KeywordAction → Construct × Nat
  | .forLoop =>
    let (header, n) := ForHeader.read g.headerStyle rest
    (forLoop text header, n)
  | .whileLoop =>
    let (condition, n) := Condition.read g.headerStyle rest
    (whileLoop text (previous.any (·.is "\x7d")) condition, n)
  | .doLoop => (scope (.loop .doWhile {}) text, 0)
  | .conditional => (scope .conditional text, 0)
  | .typeDeclaration => declaration text rest
  | .returnStatement => (leaf .returnStatement text, 0)
  | .typedef => (leaf .typedef text, 0)
  | .sizeof => (leaf .sizeof text, 0)
  | .newInstance =>
    match rest with
    | t :: _ =>
      if t.isIdentifier then (leaf .newInstance t.text, 1) else (leaf .newInstance text, 0)
    | [] => (leaf .newInstance text, 0)
  | .specialReference => (leaf .specialReference text, 0)

/-- The construct that begins with `t`, and how many of the tokens after `t` it takes. -/
def read (d : Dialect) (previous : Option Token) (t : Token) (rest : List Token) :
    Construct × Nat :=
  match t.kind with
  | .keyword =>
    match d.grammar.action? t.text with
    | some action => keyword d.grammar previous t.text rest action
    | none => plain d previous t rest
  | .unknown => (leaf .unknown t.text, 0)
  | _ => plain d previous t rest

/-- The constructs of a stream of tokens, `previous` standing before it. -/
def list (d : Dialect) (previous : Option Token) : List Token → List Construct
  | [] => []
  | t :: rest =>
    let (construct, n) := read d previous t rest
    construct :: list d ((t :: rest.take n).getLast?) (rest.drop n)
termination_by ts => ts.length

end Construct

end GrowthOrder
