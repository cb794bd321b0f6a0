import IgnoreRules.ErrorReport.Basic
import IgnoreRules.Options

/-! # Queried paths

A path is checked before any rule sees it: unless the policy is lenient it must lead downwards from
the root. The separators of the Windows style are turned into `/` first.
-/

namespace IgnoreRules

/-- Why a path is refused. All causes but the first carry the path as it was given. -/
inductive PathError where
  | empty
  | absolute (input : Text)
  | parentTraversal (input : Text)
  /-- The path starts with `./` or consists of dots. -/
  | notRelativized (input : Text)
  | unsupportedShape (input : Text)
  deriving DecidableEq

namespace PathError

def reason : PathError → String
  | .empty => "empty"
  | .absolute _ => "absolute"
  | .parentTraversal _ => "parent_traversal"
  | .notRelativized _ => "not_relativized"
  | .unsupportedShape _ => "unsupported_shape"

def input? : PathError → Option Text
  | .empty => none
  | .absolute input | .parentTraversal input | .notRelativized input | .unsupportedShape input =>
    some input

def message : PathError → String
  | .empty => "path must not be empty"
  | .absolute input =>
    "path should be relative, got absolute path `" ++ String.ofList input ++ "`"
  | .parentTraversal input =>
    "path must not escape the root with `..`, got `" ++ String.ofList input ++ "`"
  | .notRelativized input =>
    "path should be relativized without a leading `./`, got `" ++ String.ofList input ++ "`"
  | .unsupportedShape input => "unsupported path shape `" ++ String.ofList input ++ "`"

def report (error : PathError) : ErrorReport :=
  let bare : ErrorReport :=
    { kind := .expected, code := .invalidPath, message := error.message : ErrorReport }
  let named := bare.withDetail "reason" error.reason
  match error.input? with
  | none => named
  | some input => named.withDetail "path" (String.ofList input)

end PathError

namespace Path

def isControl (c : Char) : Bool := c.toNat ≤ 0x1F || (0x7F ≤ c.toNat && c.toNat ≤ 0x9F)

/-- A character that no Windows file name holds, so the path was not written in that style. -/
def isForeign (c : Char) : Bool := ['"', '<', '>', '|'].contains c || isControl c

/-- Backslashes become `/`, except in a path that names a device (`\\?\`) or holds a character that
no Windows file name holds. -/
def turnSlashes (input : Text) : Text :=
  if ['\\', '\\', '?', '\\'].isPrefixOf input || input.any isForeign then input
  else input.map fun c => if c = '\\' then '/' else c

def normalize : PathStyle → Text → Text
  | .posix, input => input
  | .windows, input => turnSlashes input

theorem normalize_ne_nil {input : Text} (style : PathStyle) (h : input ≠ []) :
    normalize style input ≠ [] := by
  cases style with
  | posix => exact h
  | windows =>
    simp only [normalize, turnSlashes]
    split
    · exact h
    · simpa using h

def hasDrive : Text → Bool
  | letter :: ':' :: _ => letter.isAlpha
  | _ => false

def shapeFault? : PathStyle → Text → Option PathError
  | .posix, _ => none
  | .windows, input =>
    if ['\\', '\\'].isPrefixOf input then some (.unsupportedShape input)
    else if hasDrive (turnSlashes input) then some (.absolute input)
    else none

def componentFault? (input normal : Text) : Option PathError :=
  let components := pieces (· = '/') normal
  let first := components.headD []
  if normal.head? = some '/' then some (.absolute input)
  else if first ≠ ['.', '.'] ∧ first.all (· = '.') then some (.notRelativized input)
  else if components.any (· = ['.', '.']) then some (.parentTraversal input)
  else none

def fault? (policy : PathPolicy) (input : Text) : Option PathError :=
  if policy.allowRelativePaths then none
  else
    match shapeFault? policy.style input with
    | some error => some error
    | none => componentFault? input (normalize policy.style input)

end Path

structure RelativePath where
  text : Text
  text_ne_nil : text ≠ []
  deriving DecidableEq

namespace RelativePath

def parse (policy : PathPolicy) (input : Text) : Except PathError RelativePath :=
  if h : input = [] then .error .empty
  else
    match Path.fault? policy input with
    | some error => .error error
    | none => .ok ⟨Path.normalize policy.style input, Path.normalize_ne_nil policy.style h⟩

def isValid (policy : PathPolicy) (input : Text) : Bool :=
  match parse policy input with
  | .ok _ => true
  | .error _ => false

end RelativePath

end IgnoreRules
