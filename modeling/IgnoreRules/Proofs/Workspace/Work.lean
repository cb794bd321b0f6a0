import IgnoreRules.Proofs.RuleSet.ClosedForm
import IgnoreRules.Proofs.RuleSet.Work
import IgnoreRules.Proofs.Workspace.Compiled

/-! # The work of a run

As long as a set keeps its rules, its queries together ask every rule about a path or directory at
most once, whatever else happens in the workspace. A matcher is compiled for each line that carries
a pattern, when the line is added, and at no other time.
-/

namespace IgnoreRules

namespace Action

/-- The action judges paths. To put a path to every rule directly is not a query. -/
def isQuery : Action → Bool
  | .test _ | .ignores _ | .testAsJudge _ | .ignoresAsJudge _ | .filter _ | .keeps _ => true
  | _ => false

def paths : Action → List Text
  | .test path | .ignores path | .testAsJudge path | .ignoresAsJudge path => [path]
  | .filter paths | .keeps paths => paths
  | _ => []

/-- What a query judges: the paths that pass, for a filter only up to the first that does not. -/
def judged (policy : PathPolicy) : Action → List Text
  | .filter paths => RuleSet.accepted policy (paths.takeWhile (RelativePath.isValid policy))
  | action => RuleSet.accepted policy action.paths

def lines : Action → List Text
  | .addText text => Text.lines text
  | .addLines lines => lines
  | _ => []

def replaced (name : String) : Action → List String
  | .create _ => [name]
  | .clone into => [into]
  | _ => []

theorem judged_of_not_isQuery (policy : PathPolicy) {action : Action}
    (h : action.isQuery = false) : action.judged policy = [] := by
  cases action with
  | test path | ignores path | testAsJudge path | ignoresAsJudge path | filter paths | keeps paths =>
    cases h
  | _ => rfl

theorem judged_eq_nil {policy : PathPolicy} {action : Action}
    (h : ∀ path ∈ action.paths, RelativePath.isValid policy path = false) :
    action.judged policy = [] := by
  have hnone : ∀ paths : List Text, (∀ path ∈ paths, RelativePath.isValid policy path = false) →
      RuleSet.accepted policy paths = [] := by
    intro paths hpaths
    apply List.filterMap_eq_nil_iff.mpr
    intro path hpath
    have hvalid := hpaths path hpath
    cases hparse : RelativePath.parse policy path with
    | error error => rfl
    | ok relative => simp [RelativePath.isValid, hparse] at hvalid
  cases action with
  | filter paths => exact hnone _ fun path hpath => h path ((List.takeWhile_subset _) hpath)
  | _ => exact hnone _ h

end Action

namespace Compiler

theorem map_key_rules (compiler : Compiler) (case : CaseSensitivity) (lines : List Text) :
    (compiler.rules case lines).1.map (·.key) =
      (lines.filterMap Pattern.ofLine?).map (·.key case) := by
  induction lines generalizing compiler with
  | nil => rfl
  | cons line lines ih =>
    cases hline : Pattern.ofLine? line with
    | none => simpa [rules, hline] using ih compiler
    | some pattern => simpa [rules, hline, rule] using ih _

/-- What a compiler is asked for, as it writes it down itself. -/
theorem rules_recording (make : MatcherKey → Matcher) (asked : List MatcherKey)
    (case : CaseSensitivity) (lines : List Text) :
    ((Compiler.recording make asked).rules case lines).2 =
      .recording make (asked ++ (lines.filterMap Pattern.ofLine?).map (·.key case)) := by
  induction lines generalizing asked with
  | nil => simp [rules]
  | cons line lines ih =>
    cases hline : Pattern.ofLine? line with
    | none => simpa [rules, hline] using ih asked
    | some pattern =>
      have hrest := ih (asked ++ [pattern.key case])
      simpa [rules, hline, rule, supply] using hrest

end Compiler

namespace Workspace

variable {workspace : Workspace} {name : String} {set : RuleSet}

theorem get?_on {other : String} {work : RuleSet → Answer × Workspace × Trace}
    (h : ∀ found, workspace.get? other = some found →
      (work found).2.1.get? name = workspace.get? name) :
    (workspace.on other work).2.1.get? name = workspace.get? name := by
  unfold Workspace.on
  cases hother : workspace.get? other with
  | none => rfl
  | some found => exact h found hother

theorem get?_put_of_ne {other : String} (hne : name ≠ other) (found : RuleSet) :
    (workspace.put other found).get? name = workspace.get? name := by
  rw [get?_put, if_neg hne]

/-- An action on the set of another name leaves a set alone, unless it puts a copy in its place. -/
theorem get?_perform_of_ne {other : String} (hne : name ≠ other) {action : Action}
    (hreplaced : name ∉ action.replaced other) :
    (workspace.perform other action).2.1.get? name = workspace.get? name := by
  cases action with
  | create options => exact get?_put_of_ne hne _
  | clone into =>
    have hinto : name ≠ into := by simpa [Action.replaced] using hreplaced
    exact get?_on fun found _ => get?_put_of_ne hinto _
  | addText text | addLines lines =>
    refine get?_on fun found _ => ?_
    exact get?_put_of_ne hne _
  | absorb source =>
    exact get?_on fun found _ => get?_on fun absorbed _ => get?_put_of_ne hne _
  | test path | ignores path | testAsJudge path | ignoresAsJudge path | filter paths | keeps paths =>
    exact get?_on fun found _ => get?_put_of_ne hne _
  | compiled => rfl
  | _ => exact get?_on fun found _ => rfl

/-- A query judges its paths one after the other, and only notes are added to the set. -/
theorem judges_perform (hget : workspace.get? name = some set) (hnotes : set.NotesValid)
    {query : Action} (hquery : query.isQuery = true) :
    ∃ after, (workspace.perform name query).2.1.get? name = some after ∧
      RuleSet.Judges set (query.judged set.options.policy) after
        (workspace.perform name query).2.2.questions := by
  have hput : ∀ {α : Type} (form : α → Answer) (outcome : α × RuleSet × List Question),
      (workspace.answer name form outcome).2.1.get? name = some outcome.2.1 := by
    intro α form outcome
    rw [answer, get?_put, if_pos rfl]
  cases query with
  | test path | ignores path | testAsJudge path | ignoresAsJudge path =>
    simp only [perform, Workspace.on, hget]
    exact ⟨_, hput _ _, RuleSet.ignores_judges hnotes path⟩
  | filter paths =>
    simp only [perform, Workspace.on, hget]
    exact ⟨_, hput _ _, RuleSet.filter_judges hnotes paths⟩
  | keeps paths =>
    simp only [perform, Workspace.on, hget]
    exact ⟨_, hput _ _, RuleSet.keeps_judges hnotes paths⟩
  | _ => cases hquery

/-- The action neither puts another set in place of the set of a name nor gives it a rule. -/
structure Retains (workspace : Workspace) (name : String) (op : String × Action) : Prop where
  not_replaced : name ∉ op.2.replaced op.1
  rules_eq : ((workspace.perform op.1 op.2).2.1.get? name).map (·.rules) =
    (workspace.get? name).map (·.rules)

/-- What is left of a set that was given no rule is the set itself, its notes included. -/
theorem append_eq_self {added : List Rule} (h : (set.append added).rules = set.rules) :
    set.append added = set := by
  have hnil : added = [] := by simpa [RuleSet.rules_append] using h
  rw [hnil]
  rfl

theorem get?_perform_of_not_isQuery (hget : workspace.get? name = some set) {action : Action}
    (hquery : action.isQuery = false) (hretains : workspace.Retains name (name, action)) :
    (workspace.perform name action).2.1.get? name = some set := by
  have hrules := hretains.rules_eq
  rw [hget] at hrules
  have hkept : ∀ added, (workspace.perform name action).2.1.get? name = some (set.append added) →
      (workspace.perform name action).2.1.get? name = some set := by
    intro added hadded
    rw [hadded] at hrules ⊢
    have hsame : (set.append added).rules = set.rules := Option.some.inj hrules
    rw [append_eq_self hsame]
  cases action with
  | create options => exact absurd hretains.not_replaced (by simp [Action.replaced])
  | clone into =>
    have hinto : name ≠ into := by simpa [Action.replaced] using hretains.not_replaced
    simp only [perform, Workspace.on, hget]
    exact (get?_put_of_ne hinto _).trans hget
  | addText text => exact hkept _ (get?_addLines hget (Text.lines text))
  | addLines lines => exact hkept _ (get?_addLines hget lines)
  | absorb source =>
    cases hsource : workspace.get? source with
    | none => simp only [perform, Workspace.on, hget, hsource]
    | some other =>
      apply hkept other.rules
      simp only [perform, Workspace.on, hget, hsource, get?_put, if_true]
  | rules | ask path | size | options => simp only [perform, Workspace.on, hget]
  | compiled => exact hget
  | _ => cases hquery

def askedBy (name : String) (op : String × Action) (trace : Trace) : List Question :=
  if op.1 = name ∧ op.2.isQuery = true then trace.questions else []

def questionsTo (workspace : Workspace) (name : String) (actions : List (String × Action)) :
    List Question :=
  (actions.zip (workspace.run actions).1).flatMap fun step => askedBy name step.1 step.2.2

theorem questionsTo_cons (workspace : Workspace) (name : String) (op : String × Action)
    (actions : List (String × Action)) :
    workspace.questionsTo name (op :: actions) =
      askedBy name op (workspace.perform op.1 op.2).2.2 ++
        (workspace.perform op.1 op.2).2.1.questionsTo name actions := rfl

/-- A step that retains the rules of a set judges what the set has not judged before. -/
theorem Retains.accounts {op : String × Action} (h : workspace.Retains name op)
    (hget : workspace.get? name = some set) (hnotes : set.NotesValid) :
    ∃ judged after, (workspace.perform op.1 op.2).2.1.get? name = some after ∧
      RuleSet.Accounts set judged after (askedBy name op (workspace.perform op.1 op.2).2.2) ∧
      (op.1 = name → ∀ path ∈ op.2.judged set.options.policy, after.Noted path) := by
  obtain ⟨other, action⟩ := op
  by_cases hother : other = name
  · subst hother
    cases hquery : action.isQuery with
    | true =>
      obtain ⟨after, hafter, hjudges⟩ := judges_perform hget hnotes hquery
      obtain ⟨judged, haccounts, hnoted⟩ := hjudges.accounts
      refine ⟨judged, after, hafter, ?_, fun _ => hnoted⟩
      rw [askedBy, if_pos ⟨rfl, hquery⟩]
      exact haccounts
    | false =>
      have hnone := Action.judged_of_not_isQuery set.options.policy hquery
      refine ⟨[], set, get?_perform_of_not_isQuery hget hquery h, ?_, by simp [hnone]⟩
      rw [askedBy, if_neg (by simp [hquery])]
      exact hnotes.accounts
  · have hkept := (get?_perform_of_ne (Ne.symm hother) h.not_replaced).trans hget
    refine ⟨[], set, hkept, ?_, fun hsame => absurd hsame hother⟩
    rw [askedBy, if_neg fun hasked => hother hasked.1]
    exact hnotes.accounts

def RetainsAll (name : String) : Workspace → List (String × Action) → Prop
  | _, [] => True
  | workspace, op :: actions =>
    workspace.Retains name op ∧ RetainsAll name (workspace.perform op.1 op.2).2.1 actions

/-- Between two actions that give rules to a set, all its queries together judge every step once. -/
theorem RetainsAll.accounts {actions : List (String × Action)}
    (h : RetainsAll name workspace actions) (hget : workspace.get? name = some set)
    (hnotes : set.NotesValid) :
    ∃ judged after, (workspace.after actions).get? name = some after ∧
      RuleSet.Accounts set judged after (workspace.questionsTo name actions) ∧
      ∀ query, (name, query) ∈ actions →
        ∀ path ∈ query.judged set.options.policy, after.Noted path := by
  induction actions generalizing workspace set with
  | nil => exact ⟨[], set, hget, hnotes.accounts, by simp⟩
  | cons op actions ih =>
    obtain ⟨hstep, hrest⟩ := h
    obtain ⟨first, middle, hmiddle, hfirst, hnow⟩ := hstep.accounts hget hnotes
    obtain ⟨later, after, hafter, hlater, hthen⟩ := ih hrest hmiddle hfirst.notes
    rw [hfirst.options] at hthen
    refine ⟨first ++ later, after, hafter, ?_, ?_⟩
    · rw [questionsTo_cons]
      exact hfirst.trans hlater
    · intro query hmem path hpath
      rcases List.mem_cons.mp hmem with hsame | hmem
      · subst hsame
        exact hlater.noted (hnow rfl path hpath)
      · exact hthen query hmem path hpath

/-- Nothing but queries and direct questions makes a matcher work. -/
theorem questions_of_not_isQuery (workspace : Workspace) (name : String) {action : Action}
    (hquery : action.isQuery = false) (hask : ∀ path, action ≠ .ask path) :
    (workspace.perform name action).2.2.questions = [] := by
  cases action with
  | ask path => exact absurd rfl (hask path)
  | create options | compiled => rfl
  | absorb source =>
    cases hget : workspace.get? name <;> cases hsource : workspace.get? source <;>
      simp [perform, Workspace.on, hget, hsource]
  | clone into | addText text | addLines lines | rules | size | options =>
    cases hget : workspace.get? name <;> simp [perform, Workspace.on, hget, addLines]
  | _ => cases hquery

/-- Matchers are compiled for the lines that an action adds and that carry a pattern, in the mode
of the set. -/
theorem compiled_perform (workspace : Workspace) (name : String) (action : Action) :
    (workspace.perform name action).2.2.compiled =
      ((workspace.get? name).map fun set =>
        (action.lines.filterMap Pattern.ofLine?).map (·.key set.options.case)).getD [] := by
  cases hget : workspace.get? name with
  | none => cases action <;> simp [perform, Workspace.on, hget]
  | some set =>
    cases action with
    | addText text | addLines lines =>
      simp [perform, Workspace.on, hget, addLines, Action.lines, Compiler.map_key_rules]
    | absorb source =>
      cases hsource : workspace.get? source <;>
        simp [perform, Workspace.on, hget, hsource, Action.lines]
    | _ => simp [perform, Workspace.on, hget, answer, Action.lines]

/-- A compiler that writes down what it is asked for writes down what the action reports. -/
theorem recording_perform {make : MatcherKey → Matcher} {asked : List MatcherKey}
    (h : workspace.compiler = .recording make asked) (name : String) (action : Action) :
    (workspace.perform name action).2.1.compiler =
      .recording make (asked ++ (workspace.perform name action).2.2.compiled) := by
  cases hget : workspace.get? name with
  | none => cases action <;> simpa [perform, Workspace.on, hget, put] using h
  | some set =>
    cases action with
    | addText text | addLines lines =>
      simp [perform, Workspace.on, hget, addLines, put, h, Compiler.rules_recording,
        Compiler.map_key_rules]
    | absorb source =>
      cases hsource : workspace.get? source <;>
        simpa [perform, Workspace.on, hget, hsource, put] using h
    | _ => simpa [perform, Workspace.on, hget, answer, put] using h

theorem recording_after {make : MatcherKey → Matcher} {asked : List MatcherKey}
    (h : workspace.compiler = .recording make asked) (actions : List (String × Action)) :
    (workspace.after actions).compiler =
      .recording make (asked ++ workspace.requests actions) := by
  induction actions generalizing workspace asked with
  | nil => simpa [after, run, requests] using h
  | cons op actions ih =>
    have hrest := ih (recording_perform h op.1 op.2)
    rw [List.append_assoc] at hrest
    exact hrest

/-- What a run costs. While a set keeps its rules, its queries ask the rule at each place at most once
about each path or directory; they ask nothing below an ignored directory, and no rule that cannot
change the state left by the rules before it. Nothing at all is asked by a query whose paths are
refused, or have been judged since the set got its rules, nor by anything that is no query. Each
query goes down to its paths one by one, and on every step through the rules in their order.
Matchers are compiled once for each added line that carries a pattern, in the order of the lines,
and never for anything else; a compiler that keeps account of its calls finds just these. -/
theorem work_accounted (compiler : Compiler) (history segment : List (String × Action))
    (name : String) {set : RuleSet}
    (hset : ((⟨compiler, []⟩ : Workspace).after history).get? name = some set)
    (hsegment : RetainsAll name ((⟨compiler, []⟩ : Workspace).after history) segment) :
    let started := (⟨compiler, []⟩ : Workspace).after history
    let ended := started.after segment
    ((started.questionsTo name segment).map fun q => (q.position, q.path)).Nodup ∧
    (∀ q ∈ started.questionsTo name segment, set.rules[q.position]? = some q.rule ∧
      (∀ above ∈ ancestors q.path, ∀ h : above ≠ [],
        (set.evaluate ⟨above, h⟩).1.ignored = false) ∧
      (RuleSet.applyRules q.path 0 .included (set.rules.take q.position)).1.canChange
        q.rule.polarity = true) ∧
    (∀ query : Action, query.isQuery = true →
      ((∀ path ∈ query.paths, RelativePath.isValid set.options.policy path = false) →
        (ended.perform name query).2.2.questions = []) ∧
      ((∀ path ∈ query.judged set.options.policy, ∃ earlier, (name, earlier) ∈ segment ∧
          path ∈ earlier.judged set.options.policy) →
        (ended.perform name query).2.2.questions = []) ∧
      ∃ blocks : List (List Question),
        (ended.perform name query).2.2.questions = blocks.flatten ∧
        List.Forall₂ RuleSet.GoDown (query.judged set.options.policy) blocks) ∧
    (∀ other (action : Action), action.isQuery = false → (∀ path, action ≠ .ask path) →
      (ended.perform other action).2.2.questions = []) ∧
    (∀ other (action : Action), (ended.perform other action).2.2.compiled =
      ((ended.get? other).map fun found =>
        (action.lines.filterMap Pattern.ofLine?).map (·.key found.options.case)).getD []) ∧
    ∀ make, ((⟨.recording make [], []⟩ : Workspace).after (history ++ segment)).compiler =
      .recording make ((⟨.recording make [], []⟩ : Workspace).requests (history ++ segment)) := by
  intro started ended
  have hreachable : set.Reachable := allReachable_run compiler history name set hset
  have hnotes := hreachable.notesValid
  obtain ⟨judged, after, hafter, haccounts, hnoted⟩ := hsegment.accounts hset hnotes
  refine ⟨haccounts.nodup_map, ?_, ?_, ?_, ?_, ?_⟩
  · intro q hq
    obtain ⟨hrule, habove, hcan⟩ := haccounts.asked q hq
    refine ⟨hrule, ?_, hcan⟩
    intro above hmem hne
    rw [(RuleSet.evaluate_spec hnotes ⟨above, hne⟩).1]
    exact habove above hmem
  · intro query hquery
    obtain ⟨last, -, hjudges⟩ := judges_perform hafter haccounts.notes hquery
    rw [haccounts.options] at hjudges
    refine ⟨?_, ?_, hjudges.exists_blocks⟩
    · intro hrefused
      rw [Action.judged_eq_nil hrefused] at hjudges
      exact hjudges.questions_eq_nil (by simp)
    · intro hearlier
      refine hjudges.questions_eq_nil fun path hpath => ?_
      obtain ⟨earlier, hmem, hjudged⟩ := hearlier path hpath
      exact hnoted earlier hmem path hjudged
  · intro other action hquery hask
    exact questions_of_not_isQuery ended other hquery hask
  · intro other action
    exact compiled_perform ended other action
  · intro make
    have hnew : (⟨.recording make [], []⟩ : Workspace).compiler = .recording make [] := rfl
    exact recording_after hnew (history ++ segment)

/-- Under `a`, `a` and `!b`, with a comment added between two queries: `a/b` costs a question to each
rule on `a/` and on `a/b`, and both paths are known afterwards. -/
theorem work_accounted_between_comments :
    let make : MatcherKey → Matcher := fun key => ⟨key.pattern, (· = key.pattern)⟩
    let started := (⟨.recording make [], []⟩ : Workspace).after
      [("s", .create {}), ("s", .addLines [['a'], ['a'], ['!', 'b']])]
    let segment : List (String × Action) :=
      [("s", .test ['a']), ("s", .addText ['#']), ("s", .ignores ['a', '/', 'b'])]
    let asked := (started.questionsTo "s" segment).map fun q => (q.position, q.path)
    asked = [(0, ['a']), (2, ['a']), (0, ['a', '/']), (1, ['a', '/']), (2, ['a', '/']),
        (0, ['a', '/', 'b']), (1, ['a', '/', 'b']), (2, ['a', '/', 'b'])] ∧
      asked.Nodup ∧
      ((started.after segment).perform "s" (.keeps [['a', '/', 'b'], ['a']])).2.2.questions =
        [] := by
  intro make started segment asked
  have hset : started.get? "s" = some _ := rfl
  have hsegment : RetainsAll "s" started segment :=
    ⟨⟨by simp [Action.replaced], rfl⟩, ⟨by simp [Action.replaced], rfl⟩,
      ⟨by simp [Action.replaced], rfl⟩, trivial⟩
  obtain ⟨hnodup, -, hqueries, -⟩ := work_accounted (.recording make [])
    [("s", .create {}), ("s", .addLines [['a'], ['a'], ['!', 'b']])] segment "s" hset hsegment
  refine ⟨rfl, hnodup, (hqueries (.keeps [['a', '/', 'b'], ['a']]) rfl).2.1 ?_⟩
  intro path hpath
  have hpath : path ∈ [['a', '/', 'b'], ['a']] := hpath
  rcases List.mem_pair.mp hpath with hbelow | htop
  · exact ⟨.ignores ['a', '/', 'b'], by simp [segment], List.mem_singleton.mpr hbelow⟩
  · exact ⟨.test ['a'], by simp [segment], List.mem_singleton.mpr htop⟩

end Workspace

end IgnoreRules
