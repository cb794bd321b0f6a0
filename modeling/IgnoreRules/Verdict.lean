import IgnoreRules.Text.Basic

/-! # Decisions

Rules are applied to a path in their order. A rule that matches moves the path to the state of its
polarity, so the last rule that matches decides; a rule whose state is already reached changes
nothing and need not be asked.
-/

namespace IgnoreRules

inductive Polarity where
  | exclude
  | reinclude
  deriving DecidableEq

namespace Polarity

def ofNegative (negative : Bool) : Polarity := if negative then .reinclude else .exclude

def name : Polarity → String
  | .exclude => "Exclude"
  | .reinclude => "Include"

end Polarity

inductive Decision where
  | included
  | excluded
  | reincluded
  deriving DecidableEq

structure Verdict where
  ignored : Bool := false
  unignored : Bool := false
  deriving DecidableEq

namespace Decision

def name : Decision → String
  | .included => "Included"
  | .excluded => "Excluded"
  | .reincluded => "Reincluded"

def ofName? : String → Option Decision
  | "Included" => some .included
  | "Excluded" => some .excluded
  | "Reincluded" => some .reincluded
  | _ => none

def target : Polarity → Decision
  | .exclude => .excluded
  | .reinclude => .reincluded

def canChange (decision : Decision) (polarity : Polarity) : Bool := decision ≠ target polarity

def apply (decision : Decision) (polarity : Polarity) (matched : Bool) : Decision :=
  if matched && decision.canChange polarity then target polarity else decision

def verdict (decision : Decision) : Verdict :=
  { ignored := decision = .excluded, unignored := decision = .reincluded }

/-- A match always leads to the target of the polarity. -/
@[simp] theorem apply_true (decision : Decision) (polarity : Polarity) :
    decision.apply polarity true = target polarity := by
  cases decision <;> cases polarity <;> rfl

@[simp] theorem apply_false (decision : Decision) (polarity : Polarity) :
    decision.apply polarity false = decision := rfl

/-- Where nothing can change, the answer of the matcher does not matter. -/
theorem apply_of_not_canChange {decision : Decision} {polarity : Polarity}
    (h : decision.canChange polarity = false) (matched : Bool) :
    decision.apply polarity matched = decision := by
  simp [apply, h]

end Decision

end IgnoreRules
