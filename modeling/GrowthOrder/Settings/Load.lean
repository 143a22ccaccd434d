import GrowthOrder.Files
import GrowthOrder.Settings.OfToml
import GrowthOrder.Settings.OfYaml
/-!
Reading settings from a file, in the format that its extension stands for.
-/
namespace GrowthOrder

/-- The formats of settings files. -/
inductive SettingsFormat
  | toml
  | yaml
  deriving DecidableEq

namespace SettingsFormat

def name : SettingsFormat → String
  | toml => "TOML"
  | yaml => "YAML"

def ofPath (path : String) : SettingsFormat :=
  match Path.extension? path with
  | some "yaml" | some "yml" => yaml
  | _ => toml

/-- The settings in a text of a format. -/
def read? (format : SettingsFormat) (text : String) : Option Settings :=
  match format with
  | toml => (Toml.read? text).bind Toml.settings?
  | yaml =>
    match Yaml.read? text with
    | none => none
    | some none => some {}
    | some (some document) => Yaml.settings? document

end SettingsFormat

/-- Why settings cannot be used. -/
inductive SettingsError
  | unread (path : String)
  | malformed (format : SettingsFormat) (path : String)
  | invalidName (name : String)
  deriving DecidableEq

def SettingsError.message : SettingsError → String
  | unread path => "Failed to read config from " ++ path
  | malformed format path => "Failed to parse " ++ format.name ++ " config from " ++ path
  | invalidName name => Settings.invalidName name

namespace Settings

/-- Settings whose names are all words. -/
def validate (s : Settings) : Except SettingsError Settings :=
  match s.badName? with
  | some name => .error (.invalidName name)
  | none => .ok s

/-- The settings in the file at a path, given its bytes. -/
def load (path : String) (bytes : Except FileError (List UInt8)) : Except SettingsError Settings :=
  match bytes.toOption.bind Utf8.decode? with
  | none => .error (.unread path)
  | some text =>
    let format := SettingsFormat.ofPath path
    match format.read? text with
    | none => .error (.malformed format path)
    | some s => s.validate

end Settings

end GrowthOrder
