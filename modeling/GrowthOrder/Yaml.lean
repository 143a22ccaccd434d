import GrowthOrder.Yaml.Token
/-!
YAML documents. The tokens of a text are read as nested collections of texts; a reference stands for
the value to which its name was last given.
-/
namespace GrowthOrder

inductive Yaml
  /-- A text; plain or not, and with a tag or not. -/
  | scalar (isPlain : Bool) (tag : Option String) (text : String)
  | sequence (items : List Yaml)
  | mapping (fields : List (Yaml × Yaml))

namespace Yaml

/-- The text of a place where nothing is written. -/
def empty : Yaml :=
  scalar true none ""

/-- The values that have names. -/
abbrev Anchors := List (String × Yaml)

/-- What was read: a value, how many tokens it took, and the values that have names by now. -/
structure Reading (α : Type) where
  value : α
  extent : Nat
  anchors : Anchors

/-- The anchor and the tag before a value, in either order, and how many tokens they are. -/
def properties : List Token → Option String × Option String × Nat
  | .anchor a :: .tag t :: _ => (some (String.ofList a), some (String.ofList t), 2)
  | .tag t :: .anchor a :: _ => (some (String.ofList a), some (String.ofList t), 2)
  | .anchor a :: _ => (some (String.ofList a), none, 1)
  | .tag t :: _ => (none, some (String.ofList t), 1)
  | _ => (none, none, 0)

/-- Where a value stands, which decides what it can be and what can follow it. -/
inductive Context
  /-- Outside brackets. -/
  | block
  /-- The key or value of a mapping outside brackets: a sequence need not be indented there. -/
  | field
  /-- Between brackets. -/
  | flow
  deriving DecidableEq

/-- Whether the place before these tokens is empty, as one of them ends it or none is left. -/
def isEmptyBefore (stops : List Token) : List Token → Bool
  | [] => true
  | token :: _ => stops.contains token

/-- Whether a collection that can stand here begins with these tokens. -/
def begins (context : Context) : List Token → Bool
  | .blockSequence :: _ | .blockMapping :: _ => context != .flow
  | .openBracket :: _ | .openBrace :: _ => true
  | .entry :: _ => context == .field
  | _ => false

mutual

/-- Reads a value. -/
def node? (context : Context) (anchors : Anchors) : List Token → Option (Reading Yaml)
  | .reference name :: _ =>
    (anchors.lookup (String.ofList name)).map fun value => ⟨value, 1, anchors⟩
  | tokens =>
    let (anchor, tag, n) := properties tokens
    let named (r : Reading Yaml) : Reading Yaml :=
      ⟨r.value, n + r.extent, (anchor.map (·, r.value)).toList ++ r.anchors⟩
    match tokens.drop n with
    | .scalar isPlain chars :: _ =>
      some (named ⟨scalar isPlain tag (String.ofList chars), 1, anchors⟩)
    | rest =>
      if begins context rest then (collection? anchors (tokens.drop n)).map named
      else if 0 < n then some (named ⟨scalar true tag "", 0, anchors⟩)
      else none
termination_by tokens => 4 * tokens.length + 1

/-- Reads a collection. -/
def collection? (anchors : Anchors) : List Token → Option (Reading Yaml)
  | .blockSequence :: rest =>
    (items? anchors rest).map fun r => ⟨sequence r.value, r.extent + 1, r.anchors⟩
  | .blockMapping :: rest =>
    (fields? anchors rest).map fun r => ⟨mapping r.value, r.extent + 1, r.anchors⟩
  | .openBracket :: rest =>
    (flowItems? true anchors rest).map fun r => ⟨sequence r.value, r.extent + 1, r.anchors⟩
  | .openBrace :: rest =>
    (flowFields? true anchors rest).map fun r => ⟨mapping r.value, r.extent + 1, r.anchors⟩
  | .entry :: rest =>
    (looseItems? anchors (.entry :: rest)).map fun r => ⟨sequence r.value, r.extent, r.anchors⟩
  | _ => none
termination_by tokens => 4 * tokens.length

/-- Reads a value, or an empty one where one of the tokens `stops` follows. -/
def optional? (context : Context) (stops : List Token) (anchors : Anchors) (tokens : List Token) :
    Option (Reading Yaml) :=
  if isEmptyBefore stops tokens then some ⟨empty, 0, anchors⟩ else node? context anchors tokens
termination_by 4 * tokens.length + 2

/-- The items of a sequence up to its end. -/
def items? (anchors : Anchors) : List Token → Option (Reading (List Yaml))
  | .blockEnd :: _ => some ⟨[], 1, anchors⟩
  | .entry :: rest =>
    match optional? .block [.entry, .blockEnd] anchors rest with
    | none => none
    | some r =>
      (items? r.anchors (rest.drop r.extent)).map fun more =>
        ⟨r.value :: more.value, more.extent + r.extent + 1, more.anchors⟩
  | _ => none
termination_by tokens => 4 * tokens.length

/-- The items of a sequence that is not indented. -/
def looseItems? (anchors : Anchors) : List Token → Option (Reading (List Yaml))
  | .entry :: rest =>
    match optional? .block [.entry, .key, .value, .blockEnd] anchors rest with
    | none => none
    | some r =>
      (looseItems? r.anchors (rest.drop r.extent)).map fun more =>
        ⟨r.value :: more.value, more.extent + r.extent + 1, more.anchors⟩
  | _ => some ⟨[], 0, anchors⟩
termination_by tokens => 4 * tokens.length - 1

/-- The fields of a mapping up to its end. -/
def fields? (anchors : Anchors) : List Token → Option (Reading (List (Yaml × Yaml)))
  | .blockEnd :: _ => some ⟨[], 1, anchors⟩
  | .key :: rest =>
    match field? .field [.key, .value, .blockEnd] [.key, .value, .blockEnd] anchors rest with
    | none => none
    | some r =>
      (fields? r.anchors (rest.drop r.extent)).map fun more =>
        ⟨r.value :: more.value, more.extent + r.extent + 1, more.anchors⟩
  | _ => none
termination_by tokens => 4 * tokens.length

/-- A key, and the value behind its colon; both can be empty, and without a colon the value is. -/
def field? (context : Context) (keyStops valueStops : List Token) (anchors : Anchors)
    (tokens : List Token) : Option (Reading (Yaml × Yaml)) :=
  match optional? context keyStops anchors tokens with
  | none => none
  | some k =>
    if (tokens.drop k.extent).head? = some .value then
      (optional? context valueStops k.anchors (tokens.drop (k.extent + 1))).map fun v =>
        ⟨(k.value, v.value), k.extent + 1 + v.extent, v.anchors⟩
    else some ⟨(k.value, empty), k.extent, k.anchors⟩
termination_by 4 * tokens.length + 3

/-- The items of a sequence up to its bracket. An item with a colon is a mapping of one field. -/
def flowItems? (first : Bool) (anchors : Anchors) : List Token → Option (Reading (List Yaml))
  | [] => none
  | .closeBracket :: _ => some ⟨[], 1, anchors⟩
  | .comma :: rest =>
    if first then none
    else (flowItems? true anchors rest).map fun r => ⟨r.value, r.extent + 1, r.anchors⟩
  | token :: rest =>
    if !first then none
    else
      let read : Option (Reading Yaml) :=
        if token = .key then
          (field? .flow [.value, .comma, .closeBracket] [.comma, .closeBracket] anchors rest).map
            fun r => ⟨mapping [r.value], r.extent, r.anchors⟩
        else
          (node? .flow anchors (token :: rest)).map fun r => ⟨r.value, r.extent - 1, r.anchors⟩
      match read with
      | none => none
      | some r =>
        (flowItems? false r.anchors (rest.drop r.extent)).map fun more =>
          ⟨r.value :: more.value, more.extent + r.extent + 1, more.anchors⟩
termination_by tokens => 4 * tokens.length + 2

/-- The fields of a mapping up to its brace; a key without a colon has an empty value. -/
def flowFields? (first : Bool) (anchors : Anchors) :
    List Token → Option (Reading (List (Yaml × Yaml)))
  | [] => none
  | .closeBrace :: _ => some ⟨[], 1, anchors⟩
  | .comma :: rest =>
    if first then none
    else (flowFields? true anchors rest).map fun r => ⟨r.value, r.extent + 1, r.anchors⟩
  | token :: rest =>
    if !first then none
    else
      let read : Option (Reading (Yaml × Yaml)) :=
        if token = .key then
          field? .flow [.value, .comma, .closeBrace] [.comma, .closeBrace] anchors rest
        else
          (node? .flow anchors (token :: rest)).map fun r =>
            ⟨(r.value, empty), r.extent - 1, r.anchors⟩
      match read with
      | none => none
      | some r =>
        (flowFields? false r.anchors (rest.drop r.extent)).map fun more =>
          ⟨r.value :: more.value, more.extent + r.extent + 1, more.anchors⟩
termination_by tokens => 4 * tokens.length + 2

end

/-- Whether a token ends a document. -/
def isBoundary : Token → Bool
  | .documentStart | .documentEnd | .version => true
  | _ => false

/-- The value of the only document of a text. A text without a document has none; a text with a
second one is refused. -/
def ofTokens? (tokens : List Token) : Option (Option Yaml) :=
  let tokens := tokens.dropWhile (· == Token.documentEnd)
  let directives := (tokens.takeWhile (· == .version)).length
  let (explicit, body) :=
    match tokens.drop directives with
    | .documentStart :: rest => (true, rest)
    | rest => (false, rest)
  if 1 < directives ∨ (0 < directives ∧ !explicit) then none
  else if !explicit ∧ body.isEmpty then some none
  else
    let read : Option (Reading Yaml) :=
      match body with
      | [] => some ⟨empty, 0, []⟩
      | token :: rest =>
        if isBoundary token then some ⟨empty, 0, []⟩ else node? .block [] (token :: rest)
    match read with
    | none => none
    | some r =>
      if (body.drop r.extent).all (· == Token.documentEnd) then some (some r.value) else none

/-- The value of a text. -/
def read? (text : String) : Option (Option Yaml) :=
  (tokens? text).bind ofTokens?

end Yaml

end GrowthOrder
