import GrowthOrder.Settings
/-!
The settings as a file gives them, before its values are understood. What is not set keeps its
default; a value of the wrong kind is refused.
-/
namespace GrowthOrder.Settings

/-- The value of each setting, where the file has one. -/
structure Entries (α : Type) where
  grammar : Option α := none
  format : Option α := none
  pretty : Option α := none
  cIntrinsics : Option α := none
  javaIntrinsics : Option α := none

/-- What the values of a file can be understood as. -/
structure Kinds (α : Type) where
  /-- One of several names. -/
  word? : α → Option String
  bool? : α → Option Bool
  texts? : α → Option (List String)

/-- A value if there is one, else the default. -/
def valueOr {α β : Type} (default : β) (read : α → Option β) : Option α → Option β
  | none => some default
  | some value => read value

/-- The settings that the values give. Names count in exactly this case. -/
def Entries.settings? {α : Type} (kinds : Kinds α) (e : Entries α) : Option Settings := do
  let grammar ← valueOr .auto (fun v => (kinds.word? v).bind GrammarChoice.ofExactName?) e.grammar
  let format ← valueOr .text (fun v => (kinds.word? v).bind OutputFormat.ofExactName?) e.format
  let pretty ← valueOr true kinds.bool? e.pretty
  let cIntrinsics ← valueOr [] kinds.texts? e.cIntrinsics
  let javaIntrinsics ← valueOr [] kinds.texts? e.javaIntrinsics
  return { grammar, format, pretty, cIntrinsics, javaIntrinsics }

end GrowthOrder.Settings
