import IgnoreRules.Regex.Basic

/-! # The weight of a regular expression

Engines refuse an expression whose compiled form is too large. The weight is a guess at the size of
that form in bytes: a class spans many ranges of encoded characters, a literal few. No engine
measures in this way, and near the bound the two may disagree. What is said of matchers is therefore
said for every engine.
-/

namespace IgnoreRules

def Atom.weight : Atom → Nat
  | .literal _ => 64
  | .any => 640
  | .oneOf _ => 640

namespace Regex

def weight : Regex Atom → Nat
  | .empty | .textStart | .textEnd => 0
  | .atom a => a.weight
  | .seq first second => first.weight + second.weight
  | .alt left right => left.weight + right.weight + 32
  | .star body | .plus body | .opt body => body.weight + 32

/-- The heaviest expression that is put to use. Engines set the same bound, 10 MiB, for what they
measure. -/
def weightLimit : Nat := 10 * 1024 * 1024

def isUsable (r : Regex Atom) : Bool := r.weight ≤ weightLimit

end Regex

end IgnoreRules
