import IgnoreRules.Config.Basic
import IgnoreRules.Json.Parser
import IgnoreRules.Json.Printer
import IgnoreRules.Json.Record
import IgnoreRules.Toml.Parser

/-! # Configurations in JSON and TOML

No setting is dropped in silence: a document with a name that is no setting, with a setting given
twice, or with a value of the wrong kind is refused as a whole.
-/

namespace IgnoreRules

def settingNames : List String := ["ignoreCase", "allowRelativePaths", "pathStyle"]

namespace PathStyle

def ofLabel? : String → Option PathStyle
  | "posix" => some .posix
  | "windows" => some .windows
  | _ => none

def ofJson? (json : Json) : Option PathStyle := json.label?.bind ofLabel?

/-- A style is its name, or a table with its name for the only key and an empty list or an empty
table for its value. -/
def ofToml? : Toml → Option PathStyle
  | .string label => ofLabel? label
  | .table _ [(label, .array _ [])] => ofLabel? label
  | .table _ [(label, .table _ [])] => ofLabel? label
  | _ => none

end PathStyle

def boolOfJson? : Json → Option Bool
  | .bool b => some b
  | _ => none

/-- Reads a field that may be missing but has a value if it is there. -/
def presentField? {α : Type} (read : Json → Option α) : Option Json → Option (Option α)
  | none => some none
  | some value => (read value).map some

def optionalField? {α : Type} (read : Json → Option α) : Option Json → Option (Option α)
  | none | some .null => some none
  | some value => (read value).map some

namespace Config

def toJson (config : Config) : Json :=
  .object <|
    [("ignoreCase", .bool config.ignoreCase),
      ("allowRelativePaths", .bool config.allowRelativePaths)]
    ++ config.pathStyle.toList.map fun style => ("pathStyle", .string style.name)

def ofJson? (json : Json) : Option Config :=
  match json.fields? .refused settingNames with
  | some [ignoreCase, allowRelativePaths, pathStyle] => do
    let ignoreCase ← presentField? boolOfJson? ignoreCase
    let allowRelativePaths ← presentField? boolOfJson? allowRelativePaths
    let pathStyle ← optionalField? PathStyle.ofJson? pathStyle
    return {
      ignoreCase := ignoreCase.getD true
      allowRelativePaths := allowRelativePaths.getD false
      pathStyle }
  | _ => none

def jsonText (config : Config) : Text := Json.indented 0 config.toJson ++ ['\n']

def addTomlSetting? (config : Config) : String × Toml → Option Config
  | ("ignoreCase", .bool b) => some { config with ignoreCase := b }
  | ("allowRelativePaths", .bool b) => some { config with allowRelativePaths := b }
  | ("pathStyle", value) =>
    (PathStyle.ofToml? value).map fun style => { config with pathStyle := some style }
  | _ => none

/-- Reads a configuration from the table of a TOML document, in which no key occurs twice. -/
def ofToml? (members : List (String × Toml)) : Option Config := members.foldlM addTomlSetting? {}

def tomlLine (name value : String) : String := name ++ " = " ++ value ++ "\n"

def tomlText (config : Config) : String :=
  tomlLine "ignoreCase" (toString config.ignoreCase)
    ++ tomlLine "allowRelativePaths" (toString config.allowRelativePaths)
    ++ match config.pathStyle with
      | none => ""
      | some style => tomlLine "pathStyle" ("\"" ++ style.name ++ "\"")

end Config

namespace Overrides

def toJson (overrides : Overrides) : Json :=
  .object <|
    overrides.ignoreCase.toList.map (fun b => ("ignoreCase", .bool b))
    ++ overrides.allowRelativePaths.toList.map (fun b => ("allowRelativePaths", .bool b))
    ++ overrides.pathStyle.toList.map fun style => ("pathStyle", .string style.name)

def ofJson? (json : Json) : Option Overrides :=
  match json.fields? .refused settingNames with
  | some [ignoreCase, allowRelativePaths, pathStyle] => do
    let ignoreCase ← optionalField? boolOfJson? ignoreCase
    let allowRelativePaths ← optionalField? boolOfJson? allowRelativePaths
    let pathStyle ← optionalField? PathStyle.ofJson? pathStyle
    return { ignoreCase, allowRelativePaths, pathStyle }
  | _ => none

end Overrides

end IgnoreRules
