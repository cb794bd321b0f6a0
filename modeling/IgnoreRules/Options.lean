import IgnoreRules.Text.Blank
import IgnoreRules.Text.CaseFold

/-! # Options

What a rule set is told once, when it is created: how letters compare, how strictly queried paths
are checked, and which separators they use.
-/

namespace IgnoreRules

inductive CaseSensitivity where
  | insensitive
  | sensitive
  deriving DecidableEq

namespace CaseSensitivity

def ofIgnoreCase (ignoreCase : Bool) : CaseSensitivity :=
  if ignoreCase then .insensitive else .sensitive

def name : CaseSensitivity → String
  | .insensitive => "insensitive"
  | .sensitive => "sensitive"

def spellings (case : CaseSensitivity) (c : Char) : List Nat :=
  match case with
  | .insensitive => variantsOf c.toNat
  | .sensitive => [c.toNat]

end CaseSensitivity

inductive PathStyle where
  | posix
  /-- Both `/` and `\` separate, and drive letters and share names are recognised. -/
  | windows
  deriving DecidableEq

namespace PathStyle

def native : PathStyle := .posix

def name : PathStyle → String
  | .posix => "posix"
  | .windows => "windows"

/-- The style that a setting names, up to surrounding blanks and the case of ASCII letters. -/
def ofName? (text : Text) : Option PathStyle :=
  match String.ofList (Text.lowerAscii (Text.trim text)) with
  | "posix" | "unix" => some .posix
  | "windows" | "win32" => some .windows
  | "native" => some .native
  | _ => none

end PathStyle

structure PathPolicy where
  /-- Absolute paths and paths with dot components pass. -/
  allowRelativePaths : Bool
  style : PathStyle
  deriving DecidableEq

/-- The policy under which a path must be relative to the root and stay below it. -/
def PathPolicy.strict (style : PathStyle) : PathPolicy := ⟨false, style⟩

structure Options where
  ignoreCase : Bool := true
  allowRelativePaths : Bool := false
  pathStyle : PathStyle := .native
  deriving DecidableEq

namespace Options

def case (options : Options) : CaseSensitivity := .ofIgnoreCase options.ignoreCase

def policy (options : Options) : PathPolicy := ⟨options.allowRelativePaths, options.pathStyle⟩

end Options

end IgnoreRules
