import GrowthOrder.Settings.Entries
import GrowthOrder.Toml.Document
/-!
Settings written in TOML. What is not a setting is ignored. The values of a section can also be
given as an array, in the order of its fields.
-/
namespace GrowthOrder.Toml

/-- Whether a value could have parts and has none. -/
def isHollow : Toml → Bool
  | .array [] | .table _ [] | .tables [] => true
  | _ => false

/-- The word that a value is: a text, or the name of the only field of a table, if that field is
hollow. -/
def word? : Toml → Option String
  | .text value => some value
  | .table _ [(name, value)] => if isHollow value then some name else none
  | _ => none

def text? : Toml → Option String
  | .text value => some value
  | _ => none

def texts? : Toml → Option (List String)
  | .array items => items.mapM text?
  | _ => none

def bool? : Toml → Option Bool
  | .bool value => some value
  | _ => none

/-- The value of the field of a section that has this name and this place. -/
def member (name : String) (place : Nat) : Toml → Option Toml
  | .table _ fields => fields.lookup name
  | .array items => items[place]?
  | .tables items => items[place]?.map (.table .header)
  | _ => none

/-- Whether a value can be a section. -/
def isSection : Toml → Bool
  | .table _ _ | .array _ | .tables _ => true
  | _ => false

/-- The settings of a document. -/
def settings? (document : Fields) : Option Settings :=
  let analysis := document.lookup "analysis"
  let output := document.lookup "output"
  let intrinsics := document.lookup "intrinsics"
  if analysis.all isSection ∧ output.all isSection ∧ intrinsics.all isSection then
    Settings.Entries.settings? { word?, bool?, texts? }
      { grammar := analysis.bind (member "grammar" 0)
        format := output.bind (member "format" 0)
        pretty := output.bind (member "pretty" 1)
        cIntrinsics := intrinsics.bind (member "c" 0)
        javaIntrinsics := intrinsics.bind (member "java" 1) }
  else none

end GrowthOrder.Toml
