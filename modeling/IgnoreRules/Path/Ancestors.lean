import IgnoreRules.Text.Basic

/-! # Ancestors

The directories above a path, as its prefixes that end in a separator.
-/

namespace IgnoreRules

def directoryPrefixes : Text → List Text
  | [] => []
  | c :: rest =>
    let longer := (directoryPrefixes rest).map (c :: ·)
    if c = '/' ∧ rest ≠ [] then [c] :: longer else longer

/-- The directories above a path, the outermost first. A `/` at the very start belongs to the first
component and names no directory. -/
def ancestors : Text → List Text
  | [] => []
  | c :: rest => (directoryPrefixes rest).map (c :: ·)

end IgnoreRules
