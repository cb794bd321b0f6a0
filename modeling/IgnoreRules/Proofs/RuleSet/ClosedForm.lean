import IgnoreRules.Proofs.RuleSet.Notes
import IgnoreRules.Workspace

/-! # Verdicts of reachable sets

Whatever has happened to a rule set, and whatever its matchers answer, a checked path is ignored
exactly when the last matching rule excludes the path itself or one of the directories above it.
-/

namespace IgnoreRules

namespace RuleSet

/-- The sets that come about by creating, adding rules of any origin, copying and querying. -/
inductive Reachable : RuleSet → Prop
  | create (options : Options) : Reachable { options }
  /-- Rules are added, be they of a text, of lines or of another set. -/
  | append {set : RuleSet} (h : Reachable set) (added : List Rule) : Reachable (set.append added)
  | copy {set : RuleSet} (h : Reachable set) : Reachable set.copy
  | test {set : RuleSet} (h : Reachable set) (path : Text) : Reachable (set.test path).2.1

theorem Reachable.ignores {set : RuleSet} (h : Reachable set) (path : Text) :
    Reachable (set.ignores path).2.1 := h.test path

theorem Reachable.filter {set : RuleSet} (h : Reachable set) (paths : List Text) :
    Reachable (set.filter paths).2.1 := by
  induction paths generalizing set with
  | nil => exact h
  | cons path paths ih =>
    have hnext := h.ignores path
    rcases houtcome : set.ignores path with ⟨_ | ignored, queried, questions⟩
    · simpa only [RuleSet.filter, houtcome] using hnext
    · rw [houtcome] at hnext
      simpa only [RuleSet.filter, houtcome] using ih hnext

theorem Reachable.keeps {set : RuleSet} (h : Reachable set) (paths : List Text) :
    Reachable (set.keeps paths).2.1 := by
  induction paths generalizing set with
  | nil => exact h
  | cons path paths ih => exact ih (h.ignores path)

/-- No history leaves a note behind that the present rules do not bear out. -/
theorem Reachable.notesValid {set : RuleSet} (h : Reachable set) : NotesValid set := by
  induction h with
  | create options => exact notesValid_of_decided_nil rfl
  | append _ added ih => exact ih.append added
  | copy _ _ => exact notesValid_of_decided_nil rfl
  | test _ path ih => exact (test_spec ih path).2.notes

theorem Reachable.test_eq {set : RuleSet} (hset : Reachable set) {input : Text}
    {path : RelativePath} (hpath : RelativePath.parse set.options.policy input = .ok path) :
    (set.test input).1 = .ok (plainVerdict set.rules path.text) := by
  rw [(test_spec hset.notesValid input).1, plainTest, hpath]
  rfl

/-- The way down to an ancestor is the beginning of the way down to the path. -/
theorem way_of_mem_ancestors {path q : Text} (h : q ∈ ancestors path) :
    ∀ step ∈ way q, step ∈ ancestors path := by
  obtain ⟨before, after, hsplit⟩ := List.append_of_mem h
  intro step hstep
  rw [way, ancestors_of_eq_append hsplit] at hstep
  rw [hsplit]
  rcases List.mem_append.mp hstep with hbefore | hself
  · exact List.mem_append_left _ hbefore
  · simp [List.mem_singleton.mp hself]

theorem plainVerdict_of_ignored_ancestor {rules : List Rule} {path q : Text}
    (hq : q ∈ ancestors path) (hignored : (plainVerdict rules q).ignored = true) :
    plainVerdict rules path = ⟨true, false⟩ := by
  obtain ⟨step, hstep, hown⟩ := plainVerdict_ignored_iff.mp hignored
  have hway : step ∈ way q := by simpa [way] using hstep
  exact plainVerdict_of_ignored
    (plainVerdict_ignored_iff.mpr ⟨step, Or.inl (way_of_mem_ancestors hq step hway), hown⟩)

/-- The verdict of a reachable set in closed form. Below an ignored directory nothing else counts,
what a rule says about a directory above is not inherited unless it excludes, and asking every rule
on every step gives the same verdict. -/
theorem test_of_reachable {set : RuleSet} (hset : Reachable set) {input : Text}
    {path : RelativePath} (hpath : RelativePath.parse set.options.policy input = .ok path) :
    ∃ verdict, (set.test input).1 = .ok verdict ∧
      (verdict.ignored = true ↔ ∃ q, (q ∈ ancestors path.text ∨ q = path.text) ∧
        own set.rules q = some .exclude) ∧
      (verdict.unignored = true ↔
        verdict.ignored = false ∧ own set.rules path.text = some .reinclude) ∧
      (∀ q ∈ ancestors path.text, ∀ hq : q ≠ [],
        (set.evaluate ⟨q, hq⟩).1.ignored = true → verdict = ⟨true, false⟩) ∧
      ((∀ q ∈ ancestors path.text, own set.rules q ≠ some .exclude) →
        own set.rules path.text = none → verdict = ⟨false, false⟩) ∧
      verdict = plainVerdict set.rules path.text ∧
      ∀ q, (applyRules q 0 .included set.rules).1 = decideAll set.rules q := by
  have hvalid := hset.notesValid
  have htest : (set.test input).1 = .ok (plainVerdict set.rules path.text) := by
    rw [(test_spec hvalid input).1, plainTest, hpath]
    rfl
  refine ⟨_, htest, plainVerdict_ignored_iff, plainVerdict_unignored_iff, ?_,
    plainVerdict_of_own_none, rfl, fun q => applyRules_fst q 0 .included set.rules⟩
  intro q hq hne hignored
  rw [(evaluate_spec hvalid ⟨q, hne⟩).1] at hignored
  exact plainVerdict_of_ignored_ancestor hq hignored

/-- A rule that includes `a/b` again cannot undo one that excludes `a/`. -/
theorem test_reincluded_below_excluded :
    ∃ verdict, ((({ options := {} } : RuleSet).append
        [⟨[], ⟨[], false, .sensitive⟩, ⟨[], (· = ['a', '/'])⟩⟩,
          ⟨[], ⟨[], true, .sensitive⟩, ⟨[], (· = ['a', '/', 'b'])⟩⟩]).test ['a', '/', 'b']).1 =
        .ok verdict ∧ verdict = ⟨true, false⟩ := by
  have hpath : RelativePath.parse (Options.policy {}) ['a', '/', 'b'] =
      .ok ⟨['a', '/', 'b'], List.cons_ne_nil _ _⟩ := rfl
  obtain ⟨verdict, htest, -, -, habove, -⟩ := test_of_reachable ((Reachable.create {}).append
    [⟨[], ⟨[], false, .sensitive⟩, ⟨[], (· = ['a', '/'])⟩⟩,
      ⟨[], ⟨[], true, .sensitive⟩, ⟨[], (· = ['a', '/', 'b'])⟩⟩]) hpath
  exact ⟨verdict, htest, habove ['a', '/'] (by simp [ancestors, directoryPrefixes])
    (List.cons_ne_nil _ _) rfl⟩

end RuleSet

namespace Workspace

def AllReachable (workspace : Workspace) : Prop :=
  ∀ name set, workspace.get? name = some set → set.Reachable

variable {workspace : Workspace}

theorem AllReachable.put (h : workspace.AllReachable) {set : RuleSet} (hset : set.Reachable)
    (name : String) : (workspace.put name set).AllReachable := by
  intro other found hfound
  rw [get?_put] at hfound
  split at hfound
  · obtain rfl := Option.some.inj hfound
    exact hset
  · exact h other found hfound

theorem AllReachable.on (h : workspace.AllReachable) (name : String)
    {work : RuleSet → Answer × Workspace × Trace}
    (hwork : ∀ set, set.Reachable → (work set).2.1.AllReachable) :
    (workspace.on name work).2.1.AllReachable := by
  unfold Workspace.on
  cases hget : workspace.get? name with
  | none => exact h
  | some set => exact hwork set (h name set hget)

theorem AllReachable.perform (h : workspace.AllReachable) (name : String) (action : Action) :
    (workspace.perform name action).2.1.AllReachable := by
  cases action with
  | create options => exact h.put (.create options) name
  | clone into => exact h.on name fun set hset => h.put hset.copy into
  | addText text => exact h.on name fun set hset => AllReachable.put h (hset.append _) name
  | addLines lines => exact h.on name fun set hset => AllReachable.put h (hset.append _) name
  | absorb source =>
    exact h.on name fun set hset => h.on source fun other _ => h.put (hset.append other.rules) name
  | test path | testAsJudge path => exact h.on name fun set hset => h.put (hset.test path) name
  | ignores path | ignoresAsJudge path =>
    exact h.on name fun set hset => h.put (hset.ignores path) name
  | filter paths => exact h.on name fun set hset => h.put (hset.filter paths) name
  | keeps paths => exact h.on name fun set hset => h.put (hset.keeps paths) name
  | compiled => exact h
  | _ => exact h.on name fun set _ => h

/-- No action leads out of the reachable sets, wherever the matchers come from. -/
theorem allReachable_run (compiler : Compiler) (actions : List (String × Action)) :
    ((⟨compiler, []⟩ : Workspace).run actions).2.AllReachable := by
  have hrun : ∀ {workspace : Workspace}, workspace.AllReachable →
      (workspace.run actions).2.AllReachable := by
    induction actions with
    | nil => exact id
    | cons op actions ih => exact fun h => ih (h.perform op.1 op.2)
  exact hrun fun _ _ h => absurd h (Option.some_ne_none _).symm

end Workspace

end IgnoreRules
