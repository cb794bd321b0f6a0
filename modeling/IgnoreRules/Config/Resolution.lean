import IgnoreRules.Config.Codec
import IgnoreRules.Config.Environment
import IgnoreRules.Config.File

/-! # Resolving a configuration

Sources are laid over each other: the defaults, then a file or text, then overrides, then the
environment. The first source that is refused decides, in this order: the environment, the extension
of the file, reading it, its text, the overrides.
-/

namespace IgnoreRules

inductive ConfigError where
  | environment (cause : EnvironmentError)
  | unsupportedFormat (extension : Text)
  | fileNotFound (path : Text)
  | fileDenied (path : Text)
  | fileUnreadable (path : Text)
  | invalidJson
  | invalidToml
  | invalidOverrides
  deriving DecidableEq

namespace ConfigError

def refusal (reason message : String) : ErrorReport :=
  { kind := .expected, code := ⟨"config", reason⟩, message }

def unreadFile (reason words : String) (path : Text) : ErrorReport :=
  (refusal reason ("failed to read config file: " ++ words)).withDetail "path" (String.ofList path)

/-- The report of an error. If the system fails to read the file, or a parser refuses a text, the
message ends in the words that the one or the other gives for it. -/
def report (error : ConfigError) (words : String) : ErrorReport :=
  match error with
  | .environment cause => cause.report
  | .unsupportedFormat extension =>
    (refusal "unsupported_format" "unsupported config format; use .json or .toml").withDetail
      "extension" (String.ofList extension)
  | .fileNotFound path => unreadFile "config_file_not_found" words path
  | .fileDenied path => unreadFile "config_file_permission_denied" words path
  | .fileUnreadable path => unreadFile "config_file_io" words path
  | .invalidJson => refusal "invalid_json" ("invalid config JSON: " ++ words)
  | .invalidToml => refusal "invalid_toml" ("invalid config TOML: " ++ words)
  | .invalidOverrides => refusal "invalid_overrides_json" ("invalid overrides JSON: " ++ words)

end ConfigError

namespace Overrides

def parse (text : Text) : Except ConfigError Overrides :=
  match (Json.parse? text).bind ofJson? with
  | none => .error .invalidOverrides
  | some overrides => .ok overrides

end Overrides

namespace Config

def parse (text : Text) : ConfigFormat → Except ConfigError Config
  | .json =>
    match (Json.parse? text).bind ofJson? with
    | none => .error .invalidJson
    | some config => .ok config
  | .toml =>
    match (Toml.parse? text).bind ofToml? with
    | none => .error .invalidToml
    | some config => .ok config

def layer (base : Config) (overrides : Option Text) (environment : Overrides) :
    Except ConfigError Config :=
  match overrides with
  | none => .ok (base.override environment)
  | some text => do
    let overrides ← Overrides.parse text
    return (base.override overrides).override environment

def readEnvironment (environment : Environment) : Except ConfigError Overrides :=
  environment.overrides.mapError .environment

def ofText (text : Option (Text × ConfigFormat)) (overrides : Option Text)
    (environment : Environment) : Except ConfigError Config := do
  let environment ← readEnvironment environment
  let base ← match text with
    | none => .ok {}
    | some (text, format) => parse text format
  base.layer overrides environment

def ofFileAlone (file : ConfigFile) : Except ConfigError Config := do
  let format ← (ConfigFormat.ofPath file.path).mapError .unsupportedFormat
  match file.reading with
  | .missing => .error (.fileNotFound file.path)
  | .denied => .error (.fileDenied file.path)
  | .unreadable => .error (.fileUnreadable file.path)
  | .text content => parse content format

def ofFile (file : Option ConfigFile) (overrides : Option Text) (environment : Environment) :
    Except ConfigError Config := do
  let environment ← readEnvironment environment
  let base ← match file with
    | none => .ok {}
    | some file => ofFileAlone file
  base.layer overrides environment

end Config

end IgnoreRules
