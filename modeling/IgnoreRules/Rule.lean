import IgnoreRules.Matcher
import IgnoreRules.Pattern
import IgnoreRules.Verdict

/-! # Rules

A rule is a pattern with its matcher. A compiler supplies the matchers; one with a memory makes each
matcher once.
-/

namespace IgnoreRules

structure Rule where
  /-- The line that the pattern came from. -/
  origin : Text
  key : MatcherKey
  matcher : Matcher

namespace Rule

def polarity (rule : Rule) : Polarity := .ofNegative rule.key.negative

def applies (rule : Rule) (path : Text) : Bool := rule.matcher.isMatch path

end Rule

def Pattern.key (pattern : Pattern) (case : CaseSensitivity) : MatcherKey :=
  ⟨pattern.body, pattern.negative, case⟩

inductive Compiler where
  /-- Each matcher is made anew, in whatever way. -/
  | direct (make : MatcherKey → Matcher)
  /-- Each matcher is made anew, and what has been asked for is written down in order. -/
  | recording (make : MatcherKey → Matcher) (asked : List MatcherKey)
  /-- Each matcher is made once, for an engine; those already made are listed by their keys. -/
  | remembering (engine : Engine) (made : List (MatcherKey × Matcher))

namespace Compiler

def fresh (engine : Engine) : Compiler := .remembering engine []

def size : Compiler → Nat
  | .direct _ | .recording .. => 0
  | .remembering _ made => made.length

def supply (compiler : Compiler) (key : MatcherKey) : Matcher × Compiler :=
  match compiler with
  | .direct make => (make key, .direct make)
  | .recording make asked => (make key, .recording make (asked ++ [key]))
  | .remembering engine made =>
    match made.lookup key with
    | some matcher => (matcher, .remembering engine made)
    | none =>
      let matcher := Matcher.compile key engine
      (matcher, .remembering engine ((key, matcher) :: made))

def rule (compiler : Compiler) (case : CaseSensitivity) (pattern : Pattern) : Rule × Compiler :=
  let key := pattern.key case
  let (matcher, compiler) := compiler.supply key
  ({ origin := pattern.origin, key, matcher }, compiler)

def rules (compiler : Compiler) (case : CaseSensitivity) : List Text → List Rule × Compiler
  | [] => ([], compiler)
  | line :: lines =>
    match Pattern.ofLine? line with
    | none => rules compiler case lines
    | some pattern =>
      let (first, compiler) := compiler.rule case pattern
      let (others, compiler) := rules compiler case lines
      (first :: others, compiler)

end Compiler

def Rule.parse? (case : CaseSensitivity) (line : Text) (compiler : Compiler) : Option Rule :=
  (Pattern.ofLine? line).map fun pattern => (compiler.rule case pattern).1

end IgnoreRules
