import IgnoreRules.Proofs.Text.Lines
import IgnoreRules.Proofs.Workspace.Work

/-! # Patterns in batches

A compiler supplies the same matcher whenever it is asked for the same key. So all that counts for
a set are the lines that it is given, in their order: it does not matter whether they come as a text
or as lines, one by one or by way of another set, nor what is asked in between.
-/

namespace IgnoreRules

def PlainRule.equip (supply : MatcherKey → Matcher) (rule : PlainRule) : Rule :=
  ⟨rule.origin, rule.key, supply rule.key⟩

namespace Compiler

/-- The matcher that a compiler supplies for a key, whenever it is asked. -/
def matcherFor : Compiler → MatcherKey → Matcher
  | .direct make | .recording make _ => make
  | .remembering engine made => fun key => (made.lookup key).getD (Matcher.compile key engine)

theorem supply_spec (compiler : Compiler) (key : MatcherKey) :
    (compiler.supply key).1 = compiler.matcherFor key ∧
      (compiler.supply key).2.matcherFor = compiler.matcherFor := by
  cases compiler with
  | direct make | recording make asked => exact ⟨rfl, rfl⟩
  | remembering engine made =>
    cases hfound : made.lookup key with
    | some matcher => simp [supply, matcherFor, hfound]
    | none =>
      refine ⟨by simp [supply, matcherFor, hfound], funext fun other => ?_⟩
      by_cases hother : other = key
      · subst hother
        simp [supply, matcherFor, hfound]
      · have hne : (other == key) = false := by simpa using hother
        simp [supply, matcherFor, hfound, List.lookup_cons, hne]

/-- The rules of lines depend on the lines and on what the compiler supplies for their keys. -/
theorem rules_spec (compiler : Compiler) (case : CaseSensitivity) (lines : List Text) :
    (compiler.rules case lines).1 =
        (PlainRule.ofLines case lines).map (·.equip compiler.matcherFor) ∧
      (compiler.rules case lines).2.matcherFor = compiler.matcherFor := by
  induction lines generalizing compiler with
  | nil => exact ⟨rfl, rfl⟩
  | cons line lines ih =>
    cases hline : Pattern.ofLine? line with
    | none => simpa [rules, PlainRule.ofLines, hline] using ih compiler
    | some pattern =>
      obtain ⟨hmatcher, hlater⟩ := compiler.supply_spec (pattern.key case)
      obtain ⟨hrules, hend⟩ := ih (compiler.supply (pattern.key case)).2
      rw [hlater] at hrules hend
      refine ⟨?_, ?_⟩
      · simp only [rules, hline, rule, hrules, PlainRule.ofLines, List.filterMap_cons,
          Option.map_some, List.map_cons, hmatcher]
        rfl
      · simpa only [rules, hline, rule] using hend

end Compiler

theorem PlainRule.ofLines_append (case : CaseSensitivity) (front back : List Text) :
    ofLines case (front ++ back) = ofLines case front ++ ofLines case back :=
  List.filterMap_append

/-- A set that has been given lines, and maybe queried. -/
structure RuleSet.GivenLines (supply : MatcherKey → Matcher) (lines : List Text)
    (before after : RuleSet) : Prop where
  options : after.options = before.options
  rules : after.rules = before.rules ++
    (PlainRule.ofLines before.options.case lines).map (·.equip supply)
  notes : after.NotesValid

namespace RuleSet.GivenLines

variable {supply : MatcherKey → Matcher} {lines lines' : List Text}
  {before middle after : RuleSet}

theorem of_queriedFrom (h : before.QueriedFrom after) : GivenLines supply [] before after :=
  ⟨h.options, by rw [h.rules]; exact (List.append_nil _).symm, h.notes⟩

theorem trans (h : GivenLines supply lines before middle)
    (h' : GivenLines supply lines' middle after) :
    GivenLines supply (lines ++ lines') before after := by
  refine ⟨h'.options.trans h.options, ?_, h'.notes⟩
  rw [h'.rules, h.rules, h.options, PlainRule.ofLines_append, List.map_append, List.append_assoc]

theorem append (h : before.NotesValid) (lines : List Text) :
    GivenLines supply lines before
      (before.append ((PlainRule.ofLines before.options.case lines).map (·.equip supply))) :=
  ⟨options_append _ _, rules_append _ _, h.append _⟩

end RuleSet.GivenLines

namespace Action

def isAddition : Action → Bool
  | .addText _ | .addLines _ => true
  | _ => false

theorem replaced_subset_written (name : String) (action : Action) :
    action.replaced name ⊆ action.written name := by
  cases action <;> simp [replaced, written]

end Action

namespace Workspace

variable {workspace : Workspace} {name : String} {set : RuleSet}

theorem matcherFor_perform (workspace : Workspace) (name : String) (action : Action) :
    (workspace.perform name action).2.1.compiler.matcherFor = workspace.compiler.matcherFor := by
  cases hget : workspace.get? name with
  | none => cases action <;> simp [perform, Workspace.on, hget, put]
  | some set =>
    cases action with
    | addText text | addLines lines =>
      simp [perform, Workspace.on, hget, addLines, put, (Compiler.rules_spec _ _ _).2]
    | absorb source =>
      cases hsource : workspace.get? source <;>
        simp [perform, Workspace.on, hget, hsource, put]
    | _ => simp [perform, Workspace.on, hget, answer, put]

/-- What does not write a set leaves it as it is, but for its notes. -/
theorem exists_queriedFrom_perform (hget : workspace.get? name = some set)
    (hnotes : set.NotesValid) {op : String × Action} (hop : name ∉ op.2.written op.1) :
    ∃ after, (workspace.perform op.1 op.2).2.1.get? name = some after ∧
      set.QueriedFrom after := by
  obtain ⟨other, action⟩ := op
  by_cases hother : name = other
  · subst hother
    cases hquery : action.isQuery with
    | true =>
      obtain ⟨after, hafter, hjudges⟩ := judges_perform hget hnotes hquery
      obtain ⟨judged, haccounts, -⟩ := hjudges.accounts
      exact ⟨after, hafter, haccounts.toQueriedFrom⟩
    | false =>
      refine ⟨set, ?_, hnotes.queried⟩
      cases action with
      | clone into =>
        have hinto : name ≠ into := by simpa [Action.written] using hop
        simp only [perform, Workspace.on, hget]
        exact (get?_put_of_ne hinto _).trans hget
      | create options | addText text | addLines lines | absorb source =>
        exact absurd (by simp [Action.written]) hop
      | rules | ask path | size | options => simp only [perform, Workspace.on, hget]
      | compiled => exact hget
      | _ => cases hquery
  · have hreplaced : name ∉ action.replaced other :=
      fun h => hop (action.replaced_subset_written other h)
    exact ⟨set, (get?_perform_of_ne hother hreplaced).trans hget, hnotes.queried⟩

theorem exists_givenLines_perform (hget : workspace.get? name = some set)
    (hnotes : set.NotesValid) {action : Action} (haction : action.isAddition = true) :
    ∃ after, (workspace.perform name action).2.1.get? name = some after ∧
      set.GivenLines workspace.compiler.matcherFor action.lines after := by
  have hlines : ∀ lines, ∃ after,
      (workspace.perform name (.addLines lines)).2.1.get? name = some after ∧
        set.GivenLines workspace.compiler.matcherFor lines after := by
    intro lines
    refine ⟨_, get?_addLines hget lines, ?_⟩
    rw [(workspace.compiler.rules_spec set.options.case lines).1]
    exact .append hnotes lines
  cases action with
  | addText text => exact hlines (Text.lines text)
  | addLines lines => exact hlines lines
  | _ => cases haction

def writing (name : String) (actions : List (String × Action)) : List (String × Action) :=
  actions.filter fun op => name ∈ op.2.written op.1

theorem matcherFor_after (workspace : Workspace) (actions : List (String × Action)) :
    (workspace.after actions).compiler.matcherFor = workspace.compiler.matcherFor := by
  induction actions generalizing workspace with
  | nil => rfl
  | cons op actions ih => exact (ih _).trans (workspace.matcherFor_perform op.1 op.2)

/-- A run gives a set the lines that it adds to it, in their order, if it writes nothing else to
it. -/
theorem exists_givenLines_after {actions : List (String × Action)}
    (hget : workspace.get? name = some set) (hnotes : set.NotesValid)
    (hadds : ∀ op ∈ writing name actions, op.1 = name ∧ op.2.isAddition = true) :
    ∃ after, (workspace.after actions).get? name = some after ∧
      set.GivenLines workspace.compiler.matcherFor
        ((writing name actions).flatMap (·.2.lines)) after := by
  -- What another action does to the compiler does not show: it supplies the same matchers.
  induction actions generalizing workspace set with
  | nil => exact ⟨set, hget, .of_queriedFrom hnotes.queried⟩
  | cons op actions ih =>
    have hlater : ∀ op ∈ writing name actions, op.1 = name ∧ op.2.isAddition = true := by
      intro other hother
      exact hadds other (((List.sublist_cons_self op actions).filter _).subset hother)
    by_cases hop : name ∈ op.2.written op.1
    · have hcons : writing name (op :: actions) = op :: writing name actions :=
        List.filter_cons_of_pos (by simpa using hop)
      obtain ⟨rfl, haddition⟩ := hadds op (by rw [hcons]; exact List.mem_cons_self)
      obtain ⟨middle, hmiddle, hfirst⟩ := exists_givenLines_perform hget hnotes haddition
      obtain ⟨after, hafter, hgiven⟩ := ih hmiddle hfirst.notes hlater
      rw [matcherFor_perform] at hgiven
      rw [hcons, List.flatMap_cons]
      exact ⟨after, hafter, hfirst.trans hgiven⟩
    · have hcons : writing name (op :: actions) = writing name actions :=
        List.filter_cons_of_neg (by simpa using hop)
      obtain ⟨middle, hmiddle, hqueried⟩ := exists_queriedFrom_perform hget hnotes hop
      obtain ⟨after, hafter, hgiven⟩ := ih hmiddle hqueried.notes hlater
      rw [matcherFor_perform] at hgiven
      rw [hcons]
      exact ⟨after, hafter, (RuleSet.GivenLines.of_queriedFrom hqueried).trans hgiven⟩

/-- A run creates the set of a name under the given case and gives it the lines, and nothing else:
the lines come as texts or as lines, or by way of other sets that were made like this. -/
inductive BuiltFrom (case : CaseSensitivity) : List (String × Action) → String → List Text → Prop
  | create (history : List (String × Action)) (name : String) {options : Options}
      (h : options.case = case) : BuiltFrom case (history ++ [(name, .create options)]) name []
  | add {history : List (String × Action)} {name : String} {lines : List Text} {action : Action}
      (h : BuiltFrom case history name lines) (hadd : action.isAddition = true) :
      BuiltFrom case (history ++ [(name, action)]) name (lines ++ action.lines)
  | absorb {history : List (String × Action)} {name source : String} {lines lines' : List Text}
      (h : BuiltFrom case history name lines) (h' : BuiltFrom case history source lines') :
      BuiltFrom case (history ++ [(name, .absorb source)]) name (lines ++ lines')
  | clone {history : List (String × Action)} {source : String} {lines : List Text}
      (h : BuiltFrom case history source lines) (into : String) :
      BuiltFrom case (history ++ [(source, .clone into)]) into lines
  /-- Any action that does not write the set, such as a query. -/
  | leave {history : List (String × Action)} {name : String} {lines : List Text}
      (h : BuiltFrom case history name lines) {op : String × Action}
      (hop : name ∉ op.2.written op.1) : BuiltFrom case (history ++ [op]) name lines

theorem after_concat (workspace : Workspace) (history : List (String × Action))
    (op : String × Action) :
    workspace.after (history ++ [op]) =
      ((workspace.after history).perform op.1 op.2).2.1 := after_append workspace history [op]

theorem get?_absorb {other : RuleSet} {source : String} (hget : workspace.get? name = some set)
    (hsource : workspace.get? source = some other) :
    (workspace.perform name (.absorb source)).2.1.get? name = some (set.append other.rules) := by
  simp only [perform, Workspace.on, hget, hsource, get?_put, if_true]

/-- The rules of a set that was built from lines are those of the lines. -/
theorem BuiltFrom.exists_rules {case : CaseSensitivity} {history : List (String × Action)}
    {lines : List Text} (h : BuiltFrom case history name lines) (compiler : Compiler) :
    ∃ built, ((⟨compiler, []⟩ : Workspace).after history).get? name = some built ∧
      built.options.case = case ∧
      built.rules = (PlainRule.ofLines case lines).map (·.equip compiler.matcherFor) := by
  have hnotes : ∀ {history : List (String × Action)} {name : String} {built : RuleSet},
      ((⟨compiler, []⟩ : Workspace).after history).get? name = some built → built.NotesValid :=
    fun {history name built} hget =>
      (allReachable_run compiler history name built hget).notesValid
  induction h with
  | create history name h =>
    rw [after_concat]
    exact ⟨_, by simp only [perform, get?_put, if_true]; rfl, h, rfl⟩
  | add h hadd ih =>
    obtain ⟨built, hget, hcase, hrules⟩ := ih
    obtain ⟨after, hafter, hgiven⟩ := exists_givenLines_perform hget (hnotes hget) hadd
    rw [after_concat]
    refine ⟨after, hafter, by rw [hgiven.options, hcase], ?_⟩
    rw [hgiven.rules, hrules, hcase, matcherFor_after, PlainRule.ofLines_append, List.map_append]
  | absorb h h' ih ih' =>
    obtain ⟨built, hget, hcase, hrules⟩ := ih
    obtain ⟨other, hsource, -, hother⟩ := ih'
    rw [after_concat]
    refine ⟨_, get?_absorb hget hsource, by rw [RuleSet.options_append, hcase], ?_⟩
    rw [RuleSet.rules_append, hrules, hother, PlainRule.ofLines_append, List.map_append]
  | clone h into ih =>
    obtain ⟨built, hget, hcase, hrules⟩ := ih
    rw [after_concat]
    refine ⟨built.copy, ?_, hcase, hrules⟩
    simp only [perform, Workspace.on, hget, get?_put, if_true]
  | leave h hop ih =>
    obtain ⟨built, hget, hcase, hrules⟩ := ih
    obtain ⟨after, hafter, hqueried⟩ := exists_queriedFrom_perform hget (hnotes hget) hop
    rw [after_concat]
    exact ⟨after, hafter, by rw [hqueried.options, hcase], by rw [hqueried.rules, hrules]⟩

theorem exists_prefix_perform (hget : workspace.get? name = some set) (hnotes : set.NotesValid)
    {op : String × Action} (hop : name ∉ op.2.replaced op.1) :
    ∃ after, (workspace.perform op.1 op.2).2.1.get? name = some after ∧
      after.options = set.options ∧ set.rules <+: after.rules ∧ after.NotesValid := by
  by_cases hwritten : name ∈ op.2.written op.1
  · obtain ⟨other, action⟩ := op
    have hadds : ∀ {action : Action}, action.isAddition = true → ∃ after,
        (workspace.perform name action).2.1.get? name = some after ∧
          after.options = set.options ∧ set.rules <+: after.rules ∧ after.NotesValid := by
      intro action hadd
      obtain ⟨after, hafter, hgiven⟩ := exists_givenLines_perform hget hnotes hadd
      exact ⟨after, hafter, hgiven.options, by rw [hgiven.rules]; exact List.prefix_append _ _,
        hgiven.notes⟩
    cases action with
    | addText text | addLines lines =>
      obtain rfl := List.mem_singleton.mp hwritten
      exact hadds rfl
    | absorb source =>
      obtain rfl := List.mem_singleton.mp hwritten
      cases hsource : workspace.get? source with
      | none =>
        exact ⟨set, by simp only [perform, Workspace.on, hget, hsource], rfl, List.prefix_rfl,
          hnotes⟩
      | some found =>
        exact ⟨_, get?_absorb hget hsource, RuleSet.options_append _ _,
          by rw [RuleSet.rules_append]; exact List.prefix_append _ _, hnotes.append _⟩
    | create options | clone into => exact absurd hwritten hop
    | _ => cases hwritten
  · obtain ⟨after, hafter, hqueried⟩ := exists_queriedFrom_perform hget hnotes hwritten
    exact ⟨after, hafter, hqueried.options, by rw [hqueried.rules], hqueried.notes⟩

/-- A set of a name that no set is put in place of keeps its options, and its rules as the first
ones. -/
theorem exists_prefix_after {actions : List (String × Action)}
    (hget : workspace.get? name = some set) (hnotes : set.NotesValid)
    (hkept : ∀ op ∈ actions, name ∉ op.2.replaced op.1) :
    ∃ after, (workspace.after actions).get? name = some after ∧ after.options = set.options ∧
      set.rules <+: after.rules := by
  induction actions generalizing workspace set with
  | nil => exact ⟨set, hget, rfl, List.prefix_rfl⟩
  | cons op actions ih =>
    obtain ⟨hop, hlater⟩ := List.forall_mem_cons.mp hkept
    obtain ⟨middle, hmiddle, hoptions, hprefix, hvalid⟩ := exists_prefix_perform hget hnotes hop
    obtain ⟨after, hafter, hoptions', hprefix'⟩ := ih hmiddle hvalid hlater
    exact ⟨after, hafter, hoptions'.trans hoptions, hprefix.trans hprefix'⟩

/-- Two workspaces have the same set under a name, but for its notes, and answer every query to it
alike. -/
structure Concur (name : String) (first second : Workspace) : Prop where
  sets : ∃ set set', first.get? name = some set ∧ second.get? name = some set' ∧
    set.options = set'.options ∧ set.rules = set'.rules
  answers : ∀ query : Action, query.isQuery = true →
    (first.perform name query).1 = (second.perform name query).1

/-- A query answers by the options and the rules. -/
theorem answer_of_isQuery (hget : workspace.get? name = some set) (hnotes : set.NotesValid)
    {other : Workspace} {set' : RuleSet} (hget' : other.get? name = some set')
    (hnotes' : set'.NotesValid) (hoptions : set.options = set'.options)
    (hrules : set.rules = set'.rules) {query : Action} (hquery : query.isQuery = true) :
    (workspace.perform name query).1 = (other.perform name query).1 := by
  cases query with
  | test path | testAsJudge path =>
    have hsame : (set.test path).1 = (set'.test path).1 := by
      rw [(RuleSet.test_spec hnotes path).1, (RuleSet.test_spec hnotes' path).1, hoptions, hrules]
    simp only [perform, Workspace.on, hget, hget']
    exact congrArg Answer.verdict hsame
  | ignores path | ignoresAsJudge path =>
    have hsame : (set.ignores path).1 = (set'.ignores path).1 := by
      rw [(RuleSet.ignores_spec hnotes path).1, (RuleSet.ignores_spec hnotes' path).1, hoptions,
        hrules]
    simp only [perform, Workspace.on, hget, hget']
    exact congrArg Answer.ignored hsame
  | filter paths =>
    have hsame : (set.filter paths).1 = (set'.filter paths).1 := by
      rw [(RuleSet.filter_spec hnotes paths).1, (RuleSet.filter_spec hnotes' paths).1, hoptions,
        hrules]
    simp only [perform, Workspace.on, hget, hget']
    exact congrArg Answer.kept hsame
  | keeps paths =>
    have hsame : (set.keeps paths).1 = (set'.keeps paths).1 := by
      rw [(RuleSet.keeps_spec hnotes paths).1, (RuleSet.keeps_spec hnotes' paths).1, hoptions,
        hrules]
    simp only [perform, Workspace.on, hget, hget']
    exact congrArg Answer.keeps hsame
  | _ => cases hquery

theorem concur_of_givenLines {first second : Workspace} {supply : MatcherKey → Matcher}
    {lines lines' : List Text} {after after' : RuleSet}
    (hget : first.get? name = some after) (hgiven : set.GivenLines supply lines after)
    (hget' : second.get? name = some after') (hgiven' : set.GivenLines supply lines' after')
    (hlines : PlainRule.ofLines set.options.case lines =
      PlainRule.ofLines set.options.case lines') : Concur name first second := by
  have hoptions : after.options = after'.options := hgiven.options.trans hgiven'.options.symm
  have hrules : after.rules = after'.rules := by rw [hgiven.rules, hgiven'.rules, hlines]
  refine ⟨⟨after, after', hget, hget', hoptions, hrules⟩, fun query hquery => ?_⟩
  exact answer_of_isQuery hget hgiven.notes hget' hgiven'.notes hoptions hrules hquery

/-- Two runs that give a set the same patterns leave the same set. -/
theorem concur_of_writing (hget : workspace.get? name = some set) (hnotes : set.NotesValid)
    {first second : List (String × Action)}
    (hfirst : ∀ op ∈ writing name first, op.1 = name ∧ op.2.isAddition = true)
    (hsecond : ∀ op ∈ writing name second, op.1 = name ∧ op.2.isAddition = true)
    (hlines : PlainRule.ofLines set.options.case ((writing name first).flatMap (·.2.lines)) =
      PlainRule.ofLines set.options.case ((writing name second).flatMap (·.2.lines))) :
    Concur name (workspace.after first) (workspace.after second) := by
  obtain ⟨after, hafter, hgiven⟩ := exists_givenLines_after hget hnotes hfirst
  obtain ⟨after', hafter', hgiven'⟩ := exists_givenLines_after hget hnotes hsecond
  exact concur_of_givenLines hafter hgiven hafter' hgiven' hlines

/-- A set is given the lines that a set under the same case was built from when it absorbs it. -/
theorem exists_givenLines_absorb {compiler : Compiler} {history : List (String × Action)}
    {source : String} {lines : List Text}
    (hget : ((⟨compiler, []⟩ : Workspace).after history).get? name = some set)
    (hbuilt : BuiltFrom set.options.case history source lines) :
    ∃ after, ((⟨compiler, []⟩ : Workspace).after (history ++ [(name, .absorb source)])).get? name =
        some after ∧ set.GivenLines compiler.matcherFor lines after := by
  have hnotes : set.NotesValid := (allReachable_run compiler history name set hget).notesValid
  obtain ⟨built, hsource, -, hrules⟩ := hbuilt.exists_rules compiler
  rw [after_concat]
  refine ⟨_, get?_absorb hget hsource, ?_⟩
  rw [hrules]
  exact .append hnotes lines

/-- Lines that come by way of another set, with nothing written before them and other lines added
after them. -/
theorem exists_givenLines_around_absorb {compiler : Compiler} {history : List (String × Action)}
    {source : String} {lines : List Text} {before after : List (String × Action)}
    (hset : ((⟨compiler, []⟩ : Workspace).after history).get? name = some set)
    (hbefore : writing name before = [])
    (hbuilt : BuiltFrom set.options.case (history ++ before) source lines)
    (hafter : ∀ op ∈ writing name after, op.1 = name ∧ op.2.isAddition = true) :
    ∃ ended, (((⟨compiler, []⟩ : Workspace).after history).after
        (before ++ (name, .absorb source) :: after)).get? name = some ended ∧
      set.GivenLines compiler.matcherFor (lines ++ (writing name after).flatMap (·.2.lines))
        ended := by
  have hnotes : set.NotesValid := (allReachable_run compiler history name set hset).notesValid
  have hnone : ∀ op ∈ writing name before, op.1 = name ∧ op.2.isAddition = true := by
    simp [hbefore]
  obtain ⟨middle, hmiddle, hquiet⟩ := exists_givenLines_after hset hnotes hnone
  rw [← after_append] at hmiddle
  rw [matcherFor_after, hbefore] at hquiet
  rw [← hquiet.options] at hbuilt
  obtain ⟨absorbed, habsorbed, htaken⟩ := exists_givenLines_absorb hmiddle hbuilt
  obtain ⟨ended, hended, hrest⟩ := exists_givenLines_after habsorbed htaken.notes hafter
  rw [matcherFor_after] at hrest
  have hrun : ((⟨compiler, []⟩ : Workspace).after history).after
        (before ++ (name, .absorb source) :: after) =
      ((⟨compiler, []⟩ : Workspace).after (history ++ before ++ [(name, .absorb source)])).after
        after := by
    simp only [← after_append, List.append_assoc, List.singleton_append]
  rw [hrun]
  exact ⟨ended, hended, (hquiet.trans htaken).trans hrest⟩

/-- How patterns are batched does not matter. From any state on, and whatever is asked in between or
added afterwards, a text leaves the same set as its two parts around a line feed; a list of lines as
their text; and a set that was built from lines under the same case, when it is absorbed, as these
lines. The rules that were there stay the first ones in any run that puts no other set in place. -/
theorem batches_concur (compiler : Compiler) (history : List (String × Action)) (name : String)
    {set : RuleSet} (hset : ((⟨compiler, []⟩ : Workspace).after history).get? name = some set)
    (later : List (String × Action)) (hlater : ∀ op ∈ later, op.1 = name ∧ op.2.isAddition = true) :
    let state := (⟨compiler, []⟩ : Workspace).after history
    (∀ (front back : Text) (together apart : List (String × Action)),
      writing name together = (name, .addText (front ++ '\n' :: back)) :: later →
      writing name apart = (name, .addText front) :: (name, .addText back) :: later →
      Concur name (state.after together) (state.after apart)) ∧
    (∀ (lines : List Text) (listed joined : List (String × Action)),
      (∀ line ∈ lines, '\n' ∉ line) →
      (∀ line, lines.getLast? = some line → line.getLast? ≠ some '\r') →
      writing name listed = (name, .addLines lines) :: later →
      writing name joined = (name, .addText (['\r', '\n'].intercalate lines)) :: later →
      Concur name (state.after listed) (state.after joined)) ∧
    (∀ (source : String) (lines : List Text) (before after given : List (String × Action)),
      writing name before = [] → BuiltFrom set.options.case (history ++ before) source lines →
      writing name after = later → writing name given = (name, .addLines lines) :: later →
      Concur name (state.after (before ++ (name, .absorb source) :: after)) (state.after given)) ∧
    ∀ run : List (String × Action), (∀ op ∈ run, name ∉ op.2.replaced op.1) →
      ∃ after, (state.after run).get? name = some after ∧ after.options = set.options ∧
        set.rules <+: after.rules := by
  intro state
  have hnotes : set.NotesValid := (allReachable_run compiler history name set hset).notesValid
  refine ⟨?_, ?_, ?_, fun run hkept => exists_prefix_after hset hnotes hkept⟩
  · intro front back together apart htogether hapart
    apply concur_of_writing hset hnotes
    · rw [htogether]
      exact List.forall_mem_cons.mpr ⟨⟨rfl, rfl⟩, hlater⟩
    · rw [hapart]
      exact List.forall_mem_cons.mpr ⟨⟨rfl, rfl⟩, List.forall_mem_cons.mpr ⟨⟨rfl, rfl⟩, hlater⟩⟩
    · simp only [htogether, hapart, List.flatMap_cons, Action.lines, Text.lines_append_lineFeed,
        List.append_assoc]
  · intro lines listed joined hlines hlast hlisted hjoined
    apply concur_of_writing hset hnotes
    · rw [hlisted]
      exact List.forall_mem_cons.mpr ⟨⟨rfl, rfl⟩, hlater⟩
    · rw [hjoined]
      exact List.forall_mem_cons.mpr ⟨⟨rfl, rfl⟩, hlater⟩
    · have hsame : PlainRule.ofLines set.options.case lines =
          PlainRule.ofLines set.options.case (Text.lines (['\r', '\n'].intercalate lines)) := by
        -- No line at all is joined to an empty text, which has one line without a pattern.
        rcases eq_or_ne lines [] with rfl | hne
        · rfl
        · rw [Text.lines_intercalate hne hlines hlast]
      simp only [hlisted, hjoined, List.flatMap_cons, Action.lines, PlainRule.ofLines_append, hsame]
  · intro source lines before after given hbefore hbuilt hafter hgiven
    obtain ⟨ended, hended, habsorbed⟩ :=
      exists_givenLines_around_absorb hset hbefore hbuilt (by rw [hafter]; exact hlater)
    obtain ⟨ended', hended', hlines⟩ := exists_givenLines_after hset hnotes
      (by rw [hgiven]; exact List.forall_mem_cons.mpr ⟨⟨rfl, rfl⟩, hlater⟩)
    rw [hafter] at habsorbed
    rw [matcherFor_after, hgiven, List.flatMap_cons] at hlines
    exact concur_of_givenLines hended habsorbed hended' hlines rfl

/-- Under `a`, a text of `b` and `!c`, two lines of which the first ends in a carriage return, and a
set made of `!c` and a comment; `d` is added afterwards. -/
theorem batches_concur_between_queries :
    let history : List (String × Action) := [("s", .create {}), ("s", .addText ['a']),
      ("b", .create {}), ("b", .addText ['!', 'c', '\n', '#'])]
    let state := (Workspace.mk (.fresh .bounded) []).after history
    let later : List (String × Action) := [("s", .addText ['d'])]
    Concur "s" (state.after (("s", .addText ['b', '\n', '!', 'c']) :: later))
      (state.after ([("s", .addText ['b']), ("s", .test ['c']), ("s", .addText ['!', 'c'])] ++
        later)) ∧
    Concur "s" (state.after (("s", .addLines [['b', '\r'], ['e']]) :: later))
      (state.after (("s", .keeps [['a'], ['b']]) ::
        ("s", .addText ['b', '\r', '\r', '\n', 'e']) :: later)) ∧
    Concur "s" (state.after ([("b", .ignores ['c'])] ++ ("s", .absorb "b") :: later))
      (state.after (("s", .addLines [['!', 'c'], ['#']]) :: later)) := by
  intro history state later
  have hset : state.get? "s" = some _ := rfl
  obtain ⟨htexts, hlines, habsorb, -⟩ := batches_concur (.fresh .bounded) history "s" hset later
    (by simp [later, Action.isAddition])
  have hcreated : BuiltFrom .insensitive
      ([("s", .create {}), ("s", .addText ['a'])] ++ [("b", .create {})]) "b" [] :=
    .create _ "b" rfl
  have hadded : BuiltFrom .insensitive history "b" [['!', 'c'], ['#']] :=
    hcreated.add (show (Action.addText ['!', 'c', '\n', '#']).isAddition = true from rfl)
  have hbuilt : BuiltFrom .insensitive (history ++ [("b", .ignores ['c'])]) "b"
      [['!', 'c'], ['#']] := hadded.leave List.not_mem_nil
  exact ⟨htexts ['b'] ['!', 'c'] _ _ rfl rfl,
    hlines [['b', '\r'], ['e']] _ _ (by simp) (by simp) rfl rfl,
    habsorb "b" [['!', 'c'], ['#']] _ _ _ rfl hbuilt rfl rfl⟩

end Workspace

end IgnoreRules
