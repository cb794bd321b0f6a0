import IgnoreRules.Glob.Parser
import IgnoreRules.Glob.Regex
import IgnoreRules.Regex.Printer
import IgnoreRules.Regex.Search
import IgnoreRules.Regex.Weight

/-! # Matchers

A pattern body becomes a matcher. No body is refused: one that no path can match, or whose
expression the engine refuses, becomes a matcher that matches nothing.
-/

namespace IgnoreRules

structure MatcherKey where
  pattern : Text
  /-- The pattern re-includes what it matches. -/
  negative : Bool
  case : CaseSensitivity
  deriving DecidableEq

structure Matcher where
  source : Text
  isMatch : Text → Bool

/-- An engine for regular expressions, by the expressions that it accepts in each mode. -/
abbrev Engine := CaseSensitivity → Regex Atom → Bool

/-- A stand-in for an engine with a size limit: it goes by an estimate of its own. -/
def Engine.bounded : Engine := fun _ r => r.isUsable

structure RegexMatcher where
  /-- The source text of the expression, empty if no path can match. -/
  source : Text
  case : CaseSensitivity
  regex : Option (Regex Atom)

namespace RegexMatcher

def ofGlob (case : CaseSensitivity) (glob : Glob) (engine : Engine) : RegexMatcher :=
  match glob.regex? with
  | none => ⟨[], case, none⟩
  | some r => ⟨r.source, case, if engine case r then some r else none⟩

/-- The matcher of a pattern. Its polarity plays no part in what it matches. -/
def compile (key : MatcherKey) (engine : Engine) : RegexMatcher :=
  ofGlob key.case (Glob.parse key.pattern) engine

def isActive (matcher : RegexMatcher) : Bool := matcher.regex.isSome

def isMatch (matcher : RegexMatcher) (path : Text) : Bool :=
  match matcher.regex with
  | none => false
  | some r => r.search (Subject.ofText matcher.case path)

def toMatcher (matcher : RegexMatcher) : Matcher := ⟨matcher.source, matcher.isMatch⟩

end RegexMatcher

def Matcher.compile (key : MatcherKey) (engine : Engine) : Matcher :=
  (RegexMatcher.compile key engine).toMatcher

end IgnoreRules
