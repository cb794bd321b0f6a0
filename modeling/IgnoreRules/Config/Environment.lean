import IgnoreRules.Config.Basic
import IgnoreRules.ErrorReport.Basic

/-! # Settings from the environment

Three variables override settings. A variable that is there must have a value that can be
understood; blanks around the value and the case of ASCII letters do not matter.
-/

namespace IgnoreRules

abbrev Environment := List (String × Text)

inductive EnvironmentError where
  /-- The variable has nothing but blanks for its value. -/
  | emptyValue (name : String)
  | invalidBool (name : String) (value : Text)
  | invalidStyle (name : String) (value : Text)
  deriving DecidableEq

namespace EnvironmentError

def code : EnvironmentError → ErrorCode
  | .emptyValue _ => ⟨"config", "empty_env_var"⟩
  | .invalidBool _ _ => ⟨"config", "invalid_env_bool"⟩
  | .invalidStyle _ _ => ⟨"config", "invalid_env_enum"⟩

def message : EnvironmentError → String
  | .emptyValue name => name ++ " must be non-empty"
  | .invalidBool name _ => name ++ " must be a boolean"
  | .invalidStyle name _ => name ++ " has an unsupported value"

def report (error : EnvironmentError) : ErrorReport :=
  let bare : ErrorReport := { kind := .expected, code := error.code, message := error.message }
  match error with
  | .emptyValue name => bare.withDetail "env_var" name
  | .invalidBool name value | .invalidStyle name value =>
    (bare.withDetail "env_var" name).withDetail "value" (String.ofList value)

end EnvironmentError

namespace Environment

def ignoreCaseVariable : String := "GITSIFT_IGNORE_CASE"

def allowRelativePathsVariable : String := "GITSIFT_ALLOW_RELATIVE_PATHS"

def pathStyleVariable : String := "GITSIFT_PATH_STYLE"

def bool? (value : Text) : Option Bool :=
  match String.ofList (Text.lowerAscii value) with
  | "true" | "1" | "yes" | "on" => some true
  | "false" | "0" | "no" | "off" => some false
  | _ => none

/-- Reads a variable, if it is there: its trimmed value must not be empty and must be understood. -/
def read {α : Type} (environment : Environment) (understand : Text → Option α)
    (refuse : String → Text → EnvironmentError) (name : String) :
    Except EnvironmentError (Option α) :=
  match List.lookup name environment with
  | none => .ok none
  | some value =>
    let trimmed := Text.trim value
    if trimmed.isEmpty then .error (.emptyValue name)
    else
      match understand trimmed with
      | none => .error (refuse name trimmed)
      | some setting => .ok (some setting)

def overrides (environment : Environment) : Except EnvironmentError Overrides := do
  let ignoreCase ← environment.read bool? .invalidBool ignoreCaseVariable
  let allowRelativePaths ← environment.read bool? .invalidBool allowRelativePathsVariable
  let pathStyle ← environment.read PathStyle.ofName? .invalidStyle pathStyleVariable
  return { ignoreCase, allowRelativePaths, pathStyle }

end Environment

end IgnoreRules
