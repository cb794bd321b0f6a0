import IgnoreRules.Glob.CharClass

/-! # Globs

A pattern body, taken apart at its separators.
-/

namespace IgnoreRules

inductive Token where
  | literal (c : Char)
  /-- Any run of characters within a component: `*`. -/
  | star
  /-- One character: `?`. -/
  | anyChar
  /-- One character of a class: `[…]`. -/
  | charClass (cls : CharClass)
  deriving DecidableEq

def Token.canMatch : Token → Bool
  | .charClass cls => !cls.isEmpty
  | _ => true

inductive Segment where
  /-- Any number of components: `**` alone. -/
  | globStar
  | tokens (ts : List Token)
  deriving DecidableEq

def Segment.canMatch : Segment → Bool
  | .globStar => true
  | .tokens ts => ts.all (·.canMatch)

structure Glob where
  segments : List Segment
  /-- The glob is matched from the root, not at any depth. -/
  anchored : Bool
  directoryOnly : Bool
  deriving DecidableEq

/-- A glob that some path may match: it has segments, and none of them is impossible. -/
def Glob.canMatch (glob : Glob) : Bool :=
  !glob.segments.isEmpty && glob.segments.all (·.canMatch)

end IgnoreRules
