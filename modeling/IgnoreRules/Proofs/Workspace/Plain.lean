import IgnoreRules.Proofs.RuleSet.Notes
import IgnoreRules.Workspace
import Mathlib.Data.Finset.Card
import Mathlib.Logic.Function.Basic

/-! # Workspaces that remember nothing

In a plain workspace a set is its options and the patterns it was given, in their order. Nothing is
noted: each query makes all matchers anew and walks down from the outermost directory. A workspace
with its two memories is shown to answer, action by action, as the plain one does.
-/

namespace IgnoreRules

/-- A rule as it is written down: the line, and what its matcher is to be made from. -/
structure PlainRule where
  origin : Text
  key : MatcherKey
  deriving DecidableEq

namespace PlainRule

def ofLines (case : CaseSensitivity) (lines : List Text) : List PlainRule :=
  lines.filterMap fun line =>
    (Pattern.ofLine? line).map fun pattern => ⟨pattern.origin, pattern.key case⟩

def rule (engine : Engine) (rule : PlainRule) : Rule :=
  ⟨rule.origin, rule.key, Matcher.compile rule.key engine⟩

end PlainRule

structure PlainSet where
  options : Options
  rules : List PlainRule := []

def PlainSet.compiled (engine : Engine) (set : PlainSet) : List Rule :=
  set.rules.map (·.rule engine)

/-- Named plain sets, and the keys for which a matcher has been asked so far. -/
structure PlainWorkspace where
  engine : Engine
  sets : String → Option PlainSet := fun _ => none
  requested : List MatcherKey := []

namespace PlainWorkspace

def put (workspace : PlainWorkspace) (name : String) (set : PlainSet) : PlainWorkspace :=
  { workspace with sets := Function.update workspace.sets name (some set) }

def on (workspace : PlainWorkspace) (name : String)
    (work : PlainSet → Answer × PlainWorkspace) : Answer × PlainWorkspace :=
  match workspace.sets name with
  | none => (.unknownSet name, workspace)
  | some set => work set

def addLines (workspace : PlainWorkspace) (name : String) (lines : List Text) (set : PlainSet) :
    Answer × PlainWorkspace :=
  let added : List PlainRule := PlainRule.ofLines set.options.case lines
  let rules := set.rules ++ added
  (.count rules.length,
    { workspace with requested := workspace.requested ++ added.map PlainRule.key }.put name
      { set with rules })

def query (workspace : PlainWorkspace) (name : String)
    (answer : Options → List Rule → Answer) : Answer × PlainWorkspace :=
  workspace.on name fun set => (answer set.options (set.compiled workspace.engine), workspace)

def perform (workspace : PlainWorkspace) (name : String) : Action → Answer × PlainWorkspace
  | .create options => (.count 0, workspace.put name { options })
  | .clone into => workspace.on name fun set => (.count set.rules.length, workspace.put into set)
  | .addText text => workspace.on name (workspace.addLines name (Text.lines text))
  | .addLines lines => workspace.on name (workspace.addLines name lines)
  | .absorb source => workspace.on name fun set => workspace.on source fun other =>
    let rules := set.rules ++ other.rules
    (.count rules.length, workspace.put name { set with rules })
  | .test path | .testAsJudge path => workspace.query name fun options rules =>
    .verdict (RuleSet.plainTest options rules path)
  | .ignores path | .ignoresAsJudge path => workspace.query name fun options rules =>
    .ignored (RuleSet.plainIgnores options rules path)
  | .filter paths => workspace.query name fun options rules =>
    .kept (RuleSet.plainFilter options rules paths)
  | .keeps paths => workspace.query name fun options rules =>
    .keeps (RuleSet.plainKeeps options rules paths)
  | .rules => workspace.query name fun _ rules => .rules rules
  | .ask path => workspace.query name fun _ rules => .matched (rules.map (·.applies path))
  | .size => workspace.query name fun _ rules => .count rules.length
  | .options => workspace.query name fun options _ => .options options
  | .compiled => (.count workspace.requested.toFinset.card, workspace)

def after (workspace : PlainWorkspace) : List (String × Action) → PlainWorkspace
  | [] => workspace
  | (name, action) :: actions => (workspace.perform name action).2.after actions

def answers (workspace : PlainWorkspace) : List (String × Action) → List Answer
  | [] => []
  | (name, action) :: actions =>
    (workspace.perform name action).1 :: (workspace.perform name action).2.answers actions

end PlainWorkspace

/-! ## The memory of the compiler -/

/-- What a compiler has made: the matcher of each key that was asked for, once. -/
structure MemoryValid (engine : Engine) (requested : List MatcherKey)
    (made : List (MatcherKey × Matcher)) : Prop where
  sound : ∀ entry ∈ made, entry.2 = Matcher.compile entry.1 engine
  nodup : (made.map (·.1)).Nodup
  keys : ∀ key, key ∈ made.map (·.1) ↔ key ∈ requested

namespace MemoryValid

variable {engine : Engine} {requested : List MatcherKey} {made : List (MatcherKey × Matcher)}

theorem empty (engine : Engine) : MemoryValid engine [] [] :=
  ⟨by simp, List.nodup_nil, by simp⟩

theorem length_eq (h : MemoryValid engine requested made) :
    made.length = requested.toFinset.card := by
  have hkeys : (made.map (·.1)).toFinset = requested.toFinset := by
    ext key
    simpa using h.keys key
  rw [← hkeys, List.toFinset_card_of_nodup h.nodup, List.length_map]

/-- A remembered matcher is the one that would be made anew. -/
theorem supply (h : MemoryValid engine requested made) (key : MatcherKey) :
    ∃ later, (Compiler.remembering engine made).supply key =
        (Matcher.compile key engine, .remembering engine later) ∧
      MemoryValid engine (requested ++ [key]) later := by
  cases hfound : made.lookup key with
  | some matcher =>
    obtain ⟨front, back, hsplit, -⟩ := List.lookup_eq_some_iff.mp hfound
    have hmem : (key, matcher) ∈ made := by rw [hsplit]; simp
    have hmatcher : matcher = Matcher.compile key engine := h.sound _ hmem
    refine ⟨made, ?_, h.sound, h.nodup, ?_⟩
    · simp only [Compiler.supply, hfound, hmatcher]
    · intro other
      have hkey : key ∈ requested := (h.keys key).mp (List.mem_map_of_mem hmem)
      rw [h.keys other, List.mem_append, List.mem_singleton]
      constructor
      · exact Or.inl
      · rintro (hother | rfl)
        · exact hother
        · exact hkey
  | none =>
    have hfresh : key ∉ made.map (·.1) := by
      intro hkey
      obtain ⟨entry, hentry, rfl⟩ := List.mem_map.mp hkey
      simpa using List.lookup_eq_none_iff.mp hfound entry hentry
    refine ⟨(key, Matcher.compile key engine) :: made, ?_, ?_, ?_, ?_⟩
    · simp only [Compiler.supply, hfound]
    · intro entry hentry
      rcases List.mem_cons.mp hentry with rfl | hentry
      · rfl
      · exact h.sound entry hentry
    · exact List.nodup_cons.mpr ⟨hfresh, h.nodup⟩
    · intro other
      rw [List.map_cons, List.mem_cons, h.keys other, List.mem_append, List.mem_singleton, or_comm]

theorem rules (h : MemoryValid engine requested made) (case : CaseSensitivity)
    (lines : List Text) :
    ∃ later, (Compiler.remembering engine made).rules case lines =
        ((PlainRule.ofLines case lines).map (·.rule engine), .remembering engine later) ∧
      MemoryValid engine (requested ++ (PlainRule.ofLines case lines).map (·.key)) later := by
  induction lines generalizing requested made with
  | nil => exact ⟨made, rfl, by simpa [PlainRule.ofLines] using h⟩
  | cons line lines ih =>
    cases hline : Pattern.ofLine? line with
    | none => simpa [Compiler.rules, PlainRule.ofLines, hline] using ih h
    | some pattern =>
      obtain ⟨middle, hsupply, hmiddle⟩ := h.supply (pattern.key case)
      obtain ⟨later, hrules, hlater⟩ := ih hmiddle
      refine ⟨later, ?_, ?_⟩
      · simp only [Compiler.rules, hline, Compiler.rule, hsupply, hrules, PlainRule.ofLines,
          List.filterMap_cons, Option.map_some, List.map_cons]
        rfl
      · simpa [PlainRule.ofLines, hline] using hlater

end MemoryValid

/-! ## What a workspace stands for -/

theorem RuleSet.map_matched_ask (set : RuleSet) (path : Text) :
    (set.ask path).map (·.matched) = set.rules.map (·.applies path) := by
  calc (set.ask path).map (·.matched)
      = (set.rules.zipIdx.map Prod.fst).map (·.applies path) := by
        simp only [RuleSet.ask, List.map_map]
        rfl
    _ = set.rules.map (·.applies path) := by rw [List.zipIdx_map_fst]

structure RuleSet.StandsFor (engine : Engine) (set : RuleSet) (plain : PlainSet) : Prop where
  options : set.options = plain.options
  rules : set.rules = plain.compiled engine
  notes : set.NotesValid

theorem RuleSet.StandsFor.queried {engine : Engine} {set queried : RuleSet} {plain : PlainSet}
    (h : set.StandsFor engine plain) (hq : set.QueriedFrom queried) :
    queried.StandsFor engine plain :=
  ⟨hq.options.trans h.options, hq.rules.trans h.rules, hq.notes⟩

theorem RuleSet.StandsFor.append {engine : Engine} {set : RuleSet} {plain : PlainSet}
    (h : set.StandsFor engine plain) (added : List PlainRule) :
    (set.append (added.map (·.rule engine))).StandsFor engine
      { plain with rules := plain.rules ++ added } := by
  refine ⟨?_, ?_, h.notes.append _⟩
  · rw [RuleSet.options_append, h.options]
  · rw [RuleSet.rules_append, h.rules, PlainSet.compiled, PlainSet.compiled, List.map_append]

theorem RuleSet.StandsFor.length_eq {engine : Engine} {set : RuleSet} {plain : PlainSet}
    (h : set.StandsFor engine plain) : set.rules.length = plain.rules.length := by
  rw [h.rules, PlainSet.compiled, List.length_map]

namespace Workspace

/-- A workspace whose compiler remembers what has been asked for, and whose sets stand for those of
a plain workspace. -/
structure StandsFor (workspace : Workspace) (plain : PlainWorkspace) : Prop where
  compiler : ∃ made, workspace.compiler = .remembering plain.engine made ∧
    MemoryValid plain.engine plain.requested made
  sets : ∀ name, Option.Rel (RuleSet.StandsFor plain.engine) (workspace.get? name)
    (plain.sets name)

/-- The outcomes of an action in a workspace and in the plain one that it stands for. -/
structure Agrees (before : PlainWorkspace) (outcome : Answer × Workspace × Trace)
    (plain : Answer × PlainWorkspace) : Prop where
  answer : outcome.1 = plain.1
  standsFor : outcome.2.1.StandsFor plain.2
  requested : plain.2.requested = before.requested ++ outcome.2.2.compiled

variable {workspace : Workspace} {plain : PlainWorkspace}

theorem StandsFor.put (h : workspace.StandsFor plain) (name : String) {set : RuleSet}
    {plainSet : PlainSet} (hset : set.StandsFor plain.engine plainSet) :
    (workspace.put name set).StandsFor (plain.put name plainSet) := by
  refine ⟨h.compiler, ?_⟩
  intro other
  rw [get?_put, PlainWorkspace.put]
  by_cases hname : other = name
  · subst hname
    simpa using Option.Rel.some hset
  · simpa [hname] using h.sets other

theorem StandsFor.put_same (h : workspace.StandsFor plain) {name : String} {set : RuleSet}
    {plainSet : PlainSet} (hplain : plain.sets name = some plainSet)
    (hset : set.StandsFor plain.engine plainSet) : (workspace.put name set).StandsFor plain := by
  refine ⟨h.compiler, ?_⟩
  intro other
  rw [get?_put]
  by_cases hname : other = name
  · subst hname
    simpa [hplain] using Option.Rel.some hset
  · simpa [hname] using h.sets other

/-- Work on a set agrees if it agrees on every set that the name can stand for. -/
theorem StandsFor.on (h : workspace.StandsFor plain) (name : String)
    {work : RuleSet → Answer × Workspace × Trace} {plainWork : PlainSet → Answer × PlainWorkspace}
    (hwork : ∀ set plainSet, plain.sets name = some plainSet → set.StandsFor plain.engine plainSet →
      Agrees plain (work set) (plainWork plainSet)) :
    Agrees plain (workspace.on name work) (plain.on name plainWork) := by
  have hsets := h.sets name
  unfold Workspace.on PlainWorkspace.on
  cases hplain : plain.sets name with
  | none =>
    rw [hplain] at hsets
    cases hget : workspace.get? name with
    | none => exact ⟨rfl, h, by simp⟩
    | some set => rw [hget] at hsets; cases hsets
  | some plainSet =>
    rw [hplain] at hsets
    cases hget : workspace.get? name with
    | none => rw [hget] at hsets; cases hsets
    | some set =>
      rw [hget] at hsets
      cases hsets with
      | some hset => exact hwork set plainSet hplain hset

/-- A query agrees if its result does not depend on the notes. -/
theorem StandsFor.query (h : workspace.StandsFor plain) (name : String) {α : Type}
    (form : α → Answer) (ask : RuleSet → α × RuleSet × List Question)
    (result : Options → List Rule → α)
    (hask : ∀ {set : RuleSet}, set.NotesValid →
      (ask set).1 = result set.options set.rules ∧ set.QueriedFrom (ask set).2.1) :
    Agrees plain (workspace.on name fun set => workspace.answer name form (ask set))
      (plain.query name fun options rules => form (result options rules)) := by
  apply h.on name
  intro set plainSet hplain hset
  obtain ⟨hresult, hqueried⟩ := hask hset.notes
  refine ⟨?_, h.put_same hplain (hset.queried hqueried), by simp [Workspace.answer]⟩
  change form (ask set).1 = _
  rw [hresult, hset.options, hset.rules]

theorem StandsFor.addLines (h : workspace.StandsFor plain) (name : String) (lines : List Text) :
    Agrees plain (workspace.on name (workspace.addLines name lines))
      (plain.on name (plain.addLines name lines)) := by
  apply h.on name
  intro set plainSet _ hset
  obtain ⟨made, hcompiler, hmade⟩ := h.compiler
  obtain ⟨later, hrules, hlater⟩ := hmade.rules set.options.case lines
  have hnew := hset.append (PlainRule.ofLines plainSet.options.case lines)
  have hbase : StandsFor { workspace with compiler := .remembering plain.engine later }
      { plain with requested :=
          plain.requested ++ (PlainRule.ofLines plainSet.options.case lines).map (·.key) } :=
    ⟨⟨later, rfl, by rw [← hset.options]; exact hlater⟩, h.sets⟩
  rw [Workspace.addLines, hcompiler, hrules, hset.options]
  refine ⟨?_, hbase.put name hnew, ?_⟩
  · exact congrArg Answer.count hnew.length_eq
  · simp [PlainWorkspace.addLines, PlainWorkspace.put, PlainRule.rule, Function.comp_def]

/-- A workspace answers every action as the plain one that it stands for. -/
theorem StandsFor.perform (h : workspace.StandsFor plain) (name : String) (action : Action) :
    Agrees plain (workspace.perform name action) (plain.perform name action) := by
  cases action with
  | create options =>
    exact ⟨rfl, h.put name ⟨rfl, rfl, RuleSet.notesValid_of_decided_nil rfl⟩, by
      simp [Workspace.perform, PlainWorkspace.perform, PlainWorkspace.put]⟩
  | clone into =>
    apply h.on name
    intro set plainSet _ hset
    exact ⟨congrArg Answer.count hset.length_eq,
      h.put into ⟨hset.options, hset.rules, RuleSet.notesValid_of_decided_nil rfl⟩,
      by simp [PlainWorkspace.put]⟩
  | addText text => exact h.addLines name (Text.lines text)
  | addLines lines => exact h.addLines name lines
  | absorb source =>
    apply h.on name
    intro set plainSet _ hset
    apply h.on source
    intro other plainOther _ hother
    have hnew := hset.append plainOther.rules
    rw [← PlainSet.compiled, ← hother.rules] at hnew
    exact ⟨congrArg Answer.count hnew.length_eq, h.put name hnew, by simp [PlainWorkspace.put]⟩
  | test path =>
    exact h.query name .verdict (·.test path) (RuleSet.plainTest · · path)
      fun hnotes => RuleSet.test_spec hnotes path
  | testAsJudge path =>
    exact h.query name .verdict (·.test path) (RuleSet.plainTest · · path)
      fun hnotes => RuleSet.test_spec hnotes path
  | ignores path =>
    exact h.query name .ignored (·.ignores path) (RuleSet.plainIgnores · · path)
      fun hnotes => RuleSet.ignores_spec hnotes path
  | ignoresAsJudge path =>
    exact h.query name .ignored (·.ignores path) (RuleSet.plainIgnores · · path)
      fun hnotes => RuleSet.ignores_spec hnotes path
  | filter paths =>
    exact h.query name .kept (·.filter paths) (RuleSet.plainFilter · · paths)
      fun hnotes => RuleSet.filter_spec hnotes paths
  | keeps paths =>
    exact h.query name .keeps (·.keeps paths) (RuleSet.plainKeeps · · paths)
      fun hnotes => RuleSet.keeps_spec hnotes paths
  | rules =>
    apply h.on name
    intro set plainSet _ hset
    exact ⟨congrArg Answer.rules hset.rules, h, by simp⟩
  | ask path =>
    apply h.on name
    intro set plainSet _ hset
    refine ⟨congrArg Answer.matched ?_, h, by simp⟩
    rw [RuleSet.map_matched_ask, hset.rules]
  | size =>
    apply h.on name
    intro set plainSet _ hset
    exact ⟨congrArg Answer.count (congrArg List.length hset.rules), h, by simp⟩
  | options =>
    apply h.on name
    intro set plainSet _ hset
    exact ⟨congrArg Answer.options hset.options, h, by simp⟩
  | compiled =>
    obtain ⟨made, hcompiler, hmade⟩ := h.compiler
    refine ⟨congrArg Answer.count ?_, h, by simp [Workspace.perform, PlainWorkspace.perform]⟩
    rw [hcompiler]
    exact hmade.length_eq

end Workspace

end IgnoreRules
