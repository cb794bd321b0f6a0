import IgnoreRules.Path.Ancestors
import IgnoreRules.Path.Basic
import IgnoreRules.RuleSet.Basic

/-! # Evaluation

A path is judged from the outside in: each directory above it first, then the path itself. Below an
ignored directory everything is ignored; otherwise the rules are applied in their order. Verdicts
are noted, so that no path and no directory is judged twice under the same rules.

Every query also returns the questions that it put to matchers, in the order in which it put them.
-/

namespace IgnoreRules

structure Question where
  position : Nat
  rule : Rule
  path : Text
  matched : Bool

structure Judge (σ : Type) where
  test : σ → Text → Except PathError Verdict × σ × List Question

def Judge.ignores {σ : Type} (judge : Judge σ) (state : σ) (path : Text) :
    Except PathError Bool × σ × List Question :=
  let (result, state, questions) := judge.test state path
  (result.map (·.ignored), state, questions)

namespace RuleSet

/-- Applies the rules to a path, the first of them at the given place. A rule that cannot change the
state is not asked. -/
def applyRules (path : Text) : Nat → Decision → List Rule → Decision × List Question
  | _, state, [] => (state, [])
  | position, state, rule :: rules =>
    if state.canChange rule.polarity then
      let matched := rule.applies path
      let state := state.apply rule.polarity matched
      let (final, questions) := applyRules path (position + 1) state rules
      (final, ⟨position, rule, path, matched⟩ :: questions)
    else applyRules path (position + 1) state rules

def judge (rules : List Rule) (parent : Verdict) (path : Text) : Verdict × List Question :=
  if parent.ignored then (parent, [])
  else
    let (state, questions) := applyRules path 0 .included rules
    (state.verdict, questions)

/-- The verdict on one step of the way down: the noted one, or a new one that is noted. -/
def visit (set : RuleSet) (parent : Verdict) (path : Text) : Verdict × RuleSet × List Question :=
  match set.noted? path with
  | some verdict => (verdict, set, [])
  | none =>
    let (verdict, questions) := judge set.rules parent path
    (verdict, set.note path verdict, questions)

def descend (set : RuleSet) (parent : Verdict) : List Text → Verdict × RuleSet × List Question
  | [] => (parent, set, [])
  | step :: steps =>
    let (verdict, set, questions) := set.visit parent step
    let (last, set, later) := set.descend verdict steps
    (last, set, questions ++ later)

def way (path : Text) : List Text := ancestors path ++ [path]

def evaluate (set : RuleSet) (path : RelativePath) : Verdict × RuleSet × List Question :=
  match set.noted? path.text with
  | some verdict => (verdict, set, [])
  | none => set.descend {} (way path.text)

def test (set : RuleSet) (path : Text) : Except PathError Verdict × RuleSet × List Question :=
  match RelativePath.parse set.options.policy path with
  | .error error => (.error error, set, [])
  | .ok relative =>
    let (verdict, set, questions) := set.evaluate relative
    (.ok verdict, set, questions)

def ignores (set : RuleSet) (path : Text) : Except PathError Bool × RuleSet × List Question :=
  let (result, set, questions) := set.test path
  (result.map (·.ignored), set, questions)

/-- The paths that are not ignored, in their order. The first path that is refused ends it. -/
def filter (set : RuleSet) :
    List Text → Except PathError (List Text) × RuleSet × List Question
  | [] => (.ok [], set, [])
  | path :: paths =>
    match set.ignores path with
    | (.error error, set, questions) => (.error error, set, questions)
    | (.ok ignored, set, questions) =>
      let (kept, set, later) := set.filter paths
      (kept.map fun others => if ignored then others else path :: others, set, questions ++ later)

/-- Whether each path is to be kept. A path that is refused does not end it. -/
def keeps (set : RuleSet) :
    List Text → List (Except PathError Bool) × RuleSet × List Question
  | [] => ([], set, [])
  | path :: paths =>
    let (result, set, questions) := set.ignores path
    let (others, set, later) := set.keeps paths
    (result.map (!·) :: others, set, questions ++ later)

def ask (set : RuleSet) (path : Text) : List Question :=
  set.rules.zipIdx.map fun (rule, position) => ⟨position, rule, path, rule.applies path⟩

def asJudge : Judge RuleSet := ⟨test⟩

/-- The verdict on a checked path without any note: each step of the way down is judged anew. -/
def verdict (rules : List Rule) (path : Text) : Verdict :=
  (way path).foldl (fun parent step => (judge rules parent step).1) {}

end RuleSet

end IgnoreRules
