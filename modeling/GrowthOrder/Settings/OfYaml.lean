import GrowthOrder.Settings.Entries
import GrowthOrder.Yaml
/-!
Settings written in YAML. What is not a setting is ignored. Every text counts as a name, and an
empty place where a section or a list is wanted counts as an empty one.
-/
namespace GrowthOrder.Yaml

/-- Whether a value is an empty place. -/
def isEmpty : Yaml → Bool
  | .scalar true _ "" => true
  | _ => false

/-- Whether a text says that there is no value. -/
def isNull : Yaml → Bool
  | .scalar true _ text => ["", "~", "null", "Null", "NULL"].contains text
  | _ => false

/-- The word that a value is: a text, or the tag of a place without a value. -/
def word? (value : Yaml) : Option String :=
  match value with
  | .scalar _ tag text =>
    match tag.map String.toList with
    | some ('!' :: name) =>
      if name.isEmpty then some text
      else if isNull value then some (String.ofList name)
      else none
    | _ => some text
  | _ => none

def text? : Yaml → Option String
  | .scalar _ _ text => some text
  | _ => none

def texts? (value : Yaml) : Option (List String) :=
  match value with
  | .sequence items => items.mapM text?
  | value => if isEmpty value then some [] else none

def bool? : Yaml → Option Bool
  | .scalar true _ text =>
    if text = "true" ∨ text = "True" ∨ text = "TRUE" then some true
    else if text = "false" ∨ text = "False" ∨ text = "FALSE" then some false
    else none
  | _ => none

/-- The values of the fields of a section, by name. Its keys are texts, and a field that has a
meaning is not given twice. -/
def section? (names : List String) (value : Yaml) : Option (List (String × Yaml)) :=
  match value with
  | .mapping fields =>
    match fields.mapM fun (key, value) => (text? key).map (·, value) with
    | none => none
    | some fields =>
      if names.all fun name => fields.countP (·.1 = name) ≤ 1 then some fields else none
  | value => if isEmpty value then some [] else none

/-- The fields of a section of a document; a section that is missing has none. -/
def fieldsOf? (document : List (String × Yaml)) (name : String) (names : List String) :
    Option (List (String × Yaml)) :=
  Settings.valueOr [] (section? names) (document.lookup name)

/-- The settings of a document. -/
def settings? (document : Yaml) : Option Settings := do
  let fields ← section? ["analysis", "output", "intrinsics"] document
  let analysis ← fieldsOf? fields "analysis" ["grammar"]
  let output ← fieldsOf? fields "output" ["format", "pretty"]
  let intrinsics ← fieldsOf? fields "intrinsics" ["c", "java"]
  Settings.Entries.settings? { word?, bool?, texts? }
    { grammar := analysis.lookup "grammar"
      format := output.lookup "format"
      pretty := output.lookup "pretty"
      cIntrinsics := intrinsics.lookup "c"
      javaIntrinsics := intrinsics.lookup "java" }

end GrowthOrder.Yaml
