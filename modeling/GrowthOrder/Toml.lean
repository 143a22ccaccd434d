/-!
TOML values and the tables that statements build up. A table remembers what made it, for that
decides whether later statements may still add to it.
-/
namespace GrowthOrder

namespace Toml

/-- What made a table. -/
inductive Origin
  /-- A header of one of its parts. -/
  | implied
  /-- A key of several parts. -/
  | dotted
  /-- A header of its own. -/
  | header
  /-- A value in braces, to which nothing can be added. -/
  | inline
  deriving DecidableEq

end Toml

/-- A value. Numbers and dates are not told apart. -/
inductive Toml
  | text (value : String)
  | bool (value : Bool)
  | number
  | array (items : List Toml)
  | table (origin : Toml.Origin) (fields : List (String × Toml))
  /-- The tables that repeated headers make. -/
  | tables (items : List (List (String × Toml)))

namespace Toml

abbrev Fields := List (String × Toml)

/-- The fields with a value in place of the one of that name. -/
def Fields.replace (fields : Fields) (name : String) (value : Toml) : Fields :=
  fields.map fun field => if field.1 = name then (name, value) else field

/-- Changes the table to which a path leads. Tables that are missing on the way are made; of those
that are there, the parts of a key do not go through one that has a header. -/
def change (byKey : Bool) (f : Origin → Fields → Option Fields) :
    (path : List String) → Origin → Fields → Option Fields
  | [], origin, fields => f origin fields
  | name :: path, _, fields =>
    match fields.lookup name with
    | none =>
      let made := if byKey then Origin.dotted else Origin.implied
      (change byKey f path made []).map fun below => fields ++ [(name, table made below)]
    | some (.table origin below) =>
      if origin = .inline ∨ (byKey ∧ origin = .header) then none
      else (change byKey f path origin below).map fun below =>
        fields.replace name (.table origin below)
    | some (.tables items) =>
      match items.getLast? with
      | none => none
      | some last => (change byKey f path .header last).map fun last =>
        fields.replace name (.tables (items.dropLast ++ [last]))
    | some _ => none

/-- Adds a value under a key of one or several parts. A name can have one value only, and a table
that was made by keys takes no others than by such keys. -/
def addPair (path : List String) (name : String) (value : Toml) : Origin → Fields → Option Fields :=
  change true (fun origin fields =>
    if (origin = .dotted ↔ path = []) ∨ (fields.lookup name).isSome then none
    else some (fields ++ [(name, value)])) path

/-- Gives a table its header, unless it has one already or is not to have one. -/
def addHeader (path : List String) (name : String) : Fields → Option Fields :=
  change false (fun _ fields =>
    match fields.lookup name with
    | none => some (fields ++ [(name, .table .header [])])
    | some (.table .implied below) => some (fields.replace name (.table .header below))
    | some _ => none) path .header

/-- Adds a table to those of a repeated header. -/
def addRepeated (path : List String) (name : String) : Fields → Option Fields :=
  change false (fun _ fields =>
    match fields.lookup name with
    | none => some (fields ++ [(name, .tables [[]])])
    | some (.tables items) => some (fields.replace name (.tables (items ++ [[]])))
    | some _ => none) path .header

/-- A table in braces. -/
def inlineTable? (pairs : List (List String × String × Toml)) : Option Toml :=
  (pairs.foldlM (fun fields (path, name, value) => addPair path name value .inline fields) []).map
    (.table .inline)

/-- A statement of a document; a key is given by the names before the last, and the last. -/
inductive Statement
  | pair (path : List String) (name : String) (value : Toml)
  | header (path : List String) (name : String)
  | repeated (path : List String) (name : String)

/-- The tables so far, and the one to which pairs are added. -/
structure Document where
  fields : Fields := []
  current : List String := []

def Document.add (d : Document) : Statement → Option Document
  | .pair path name value =>
    (change false (addPair path name value) d.current .header d.fields).map fun fields =>
      { d with fields }
  | .header path name =>
    (addHeader path name d.fields).map fun fields => { fields, current := path ++ [name] }
  | .repeated path name =>
    (addRepeated path name d.fields).map fun fields => { fields, current := path ++ [name] }

/-- The fields of the document that statements make up. -/
def ofStatements? (statements : List Statement) : Option Fields :=
  (statements.foldlM Document.add {}).map Document.fields

end Toml

end GrowthOrder
