import IgnoreRules.Options
import IgnoreRules.Rule

/-! # Rule sets

An ordered list of rules under common options, together with the verdicts that have been reached so
far. A verdict stays good until a rule is added.
-/

namespace IgnoreRules

structure RuleSet where
  options : Options
  /-- The rules, the oldest first. -/
  rules : List Rule := []
  /-- The verdicts reached under these rules, by path or directory. The length of the path stands
  first: it tells paths apart that share a long beginning. -/
  decided : List ((Nat × Text) × Verdict) := []

namespace RuleSet

/-- Adds rules at the end. If there is one, all verdicts are forgotten. -/
def append (set : RuleSet) (added : List Rule) : RuleSet :=
  if added.isEmpty then set else { set with rules := set.rules ++ added, decided := [] }

def note (set : RuleSet) (path : Text) (verdict : Verdict) : RuleSet :=
  { set with decided := ((path.length, path), verdict) :: set.decided }

def noted? (set : RuleSet) (path : Text) : Option Verdict :=
  set.decided.lookup (path.length, path)

theorem noted?_note (set : RuleSet) (path other : Text) (verdict : Verdict) :
    (set.note path verdict).noted? other =
      if other = path then some verdict else set.noted? other := by
  by_cases h : other = path
  · subst h
    simp [note, noted?]
  · have differ : ((other.length, other) == (path.length, path)) = false := by
      simp [h]
    simp [note, noted?, List.lookup_cons, differ, h]

def copy (set : RuleSet) : RuleSet := { set with decided := [] }

end RuleSet

end IgnoreRules
