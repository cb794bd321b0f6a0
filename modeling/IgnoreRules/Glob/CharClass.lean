import IgnoreRules.Text.Basic

/-! # Character classes

The bracket expressions of a glob, such as `[a-z_]` or `[!0-9]`. No class accepts `/`, whatever it
lists: a component of a path is never matched across its separators.
-/

namespace IgnoreRules

inductive ClassMember where
  | char (c : Char)
  | range (lo hi : Char)
  deriving DecidableEq

def ClassMember.covers (points : List Nat) : ClassMember → Bool
  | .char c => points.contains c.toNat
  | .range lo hi => points.any fun point => lo.toNat ≤ point && point ≤ hi.toNat

structure CharClass where
  /-- The class accepts what its members do not cover. -/
  negated : Bool
  members : List ClassMember
  deriving DecidableEq

namespace CharClass

def none : CharClass := ⟨false, []⟩

def anyButSlash : CharClass := ⟨true, []⟩

/-- No character can satisfy a class that lists nothing and is not negated. -/
def isEmpty (cls : CharClass) : Bool := !cls.negated && cls.members.isEmpty

/-- A character is accepted by its spellings: it must not be `/`, and some spelling of it must be
covered, or none if the class is negated. Case variants thus widen the members first, and only then
is the class negated. -/
def accepts (cls : CharClass) (spellings : List Nat) : Bool :=
  !spellings.contains '/'.toNat && (cls.members.any (·.covers spellings) != cls.negated)

end CharClass

end IgnoreRules
