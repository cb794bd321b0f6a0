import IgnoreRules.RuleSet.Evaluation

/-! # Workspaces

Several named rule sets that share one compiler, and what can be done with them.
-/

namespace IgnoreRules

inductive Action where
  | create (options : Options)
  | clone (into : String)
  | addText (text : Text)
  | addLines (lines : List Text)
  | absorb (source : String)
  | test (path : Text)
  | ignores (path : Text)
  /-- Judge a path, the set being known as a judge only. -/
  | testAsJudge (path : Text)
  /-- Say whether a path is ignored, the set being known as a judge only. -/
  | ignoresAsJudge (path : Text)
  | filter (paths : List Text)
  | keeps (paths : List Text)
  | rules
  | ask (path : Text)
  | size
  | options
  /-- Count the matchers that the compiler remembers. -/
  | compiled

inductive Answer where
  | count (n : Nat)
  | verdict (result : Except PathError Verdict)
  | ignored (result : Except PathError Bool)
  | kept (result : Except PathError (List Text))
  | keeps (results : List (Except PathError Bool))
  | rules (rules : List Rule)
  | matched (results : List Bool)
  | options (options : Options)
  | unknownSet (name : String)

structure Trace where
  /-- The matchers that the compiler was asked for, in order. -/
  compiled : List MatcherKey := []
  /-- The questions that were put to matchers, in order. -/
  questions : List Question := []

structure Workspace where
  compiler : Compiler
  sets : List (String × RuleSet) := []

namespace Workspace

def get? (workspace : Workspace) (name : String) : Option RuleSet := workspace.sets.lookup name

def put (workspace : Workspace) (name : String) (set : RuleSet) : Workspace :=
  { workspace with sets := (name, set) :: workspace.sets.filter (·.1 ≠ name) }

theorem lookup_filter_ne {α : Type} {name other : String} (h : other ≠ name)
    (sets : List (String × α)) :
    (sets.filter (·.1 ≠ name)).lookup other = sets.lookup other := by
  induction sets with
  | nil => rfl
  | cons entry sets ih =>
    obtain ⟨key, set⟩ := entry
    by_cases hkey : key = name
    · subst hkey
      have hne : (other == key) = false := by simpa using h
      simpa [List.lookup_cons, hne] using ih
    · have hkeep : List.filter (·.1 ≠ name) ((key, set) :: sets) =
          (key, set) :: sets.filter (·.1 ≠ name) := List.filter_cons_of_pos (by simpa using hkey)
      rw [hkeep, List.lookup_cons, List.lookup_cons, ih]

theorem get?_put (workspace : Workspace) (name other : String) (set : RuleSet) :
    (workspace.put name set).get? other =
      if other = name then some set else workspace.get? other := by
  unfold get? put
  by_cases h : other = name
  · subst h
    rw [if_pos rfl, List.lookup_cons_self]
  · have hne : (other == name) = false := by simpa using h
    rw [if_neg h, List.lookup_cons, hne]
    exact lookup_filter_ne h workspace.sets

def on (workspace : Workspace) (name : String)
    (work : RuleSet → Answer × Workspace × Trace) : Answer × Workspace × Trace :=
  match workspace.get? name with
  | none => (.unknownSet name, workspace, {})
  | some set => work set

def addLines (workspace : Workspace) (name : String) (lines : List Text) (set : RuleSet) :
    Answer × Workspace × Trace :=
  let (added, compiler) := workspace.compiler.rules set.options.case lines
  let set := set.append added
  (.count set.rules.length, { workspace with compiler }.put name set,
    { compiled := added.map (·.key) })

/-- Keeps what a query has noted, and answers. -/
def answer {α : Type} (workspace : Workspace) (name : String) (form : α → Answer)
    (outcome : α × RuleSet × List Question) : Answer × Workspace × Trace :=
  let (result, set, questions) := outcome
  (form result, workspace.put name set, { questions })

def perform (workspace : Workspace) (name : String) : Action → Answer × Workspace × Trace
  | .create options => (.count 0, workspace.put name { options }, {})
  | .clone into => workspace.on name fun set =>
    (.count set.rules.length, workspace.put into set.copy, {})
  | .addText text => workspace.on name (workspace.addLines name (Text.lines text))
  | .addLines lines => workspace.on name (workspace.addLines name lines)
  | .absorb source => workspace.on name fun set => workspace.on source fun other =>
    let set := set.append other.rules
    (.count set.rules.length, workspace.put name set, {})
  | .test path => workspace.on name fun set => workspace.answer name .verdict (set.test path)
  | .ignores path => workspace.on name fun set => workspace.answer name .ignored (set.ignores path)
  | .testAsJudge path => workspace.on name fun set =>
    workspace.answer name .verdict (RuleSet.asJudge.test set path)
  | .ignoresAsJudge path => workspace.on name fun set =>
    workspace.answer name .ignored (RuleSet.asJudge.ignores set path)
  | .filter paths => workspace.on name fun set => workspace.answer name .kept (set.filter paths)
  | .keeps paths => workspace.on name fun set => workspace.answer name .keeps (set.keeps paths)
  | .rules => workspace.on name fun set => (.rules set.rules, workspace, {})
  | .ask path => workspace.on name fun set =>
    let questions := set.ask path
    (.matched (questions.map (·.matched)), workspace, { questions })
  | .size => workspace.on name fun set => (.count set.rules.length, workspace, {})
  | .options => workspace.on name fun set => (.options set.options, workspace, {})
  | .compiled => (.count workspace.compiler.size, workspace, {})

def run (workspace : Workspace) : List (String × Action) → List (Answer × Trace) × Workspace
  | [] => ([], workspace)
  | (name, action) :: actions =>
    let (answer, workspace, trace) := workspace.perform name action
    let (later, workspace) := workspace.run actions
    ((answer, trace) :: later, workspace)

end Workspace

end IgnoreRules
