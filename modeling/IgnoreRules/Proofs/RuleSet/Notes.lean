import IgnoreRules.Proofs.Path.Ancestors
import IgnoreRules.Proofs.RuleSet.LastMatch

/-! # Noted verdicts

A verdict is noted for queried paths and for the directories above them alike. What makes both
usable for every later query is that a note on a path is always the verdict that the present rules
give to it when nothing is noted; the ancestors of a directory being those that stand before it, the
walk down to a path is at each step the walk down to that step.
-/

namespace IgnoreRules

namespace RuleSet

def plainTest (options : Options) (rules : List Rule) (path : Text) : Except PathError Verdict :=
  (RelativePath.parse options.policy path).map fun relative => plainVerdict rules relative.text

def plainIgnores (options : Options) (rules : List Rule) (path : Text) : Except PathError Bool :=
  (plainTest options rules path).map (·.ignored)

def plainFilter (options : Options) (rules : List Rule) : List Text → Except PathError (List Text)
  | [] => .ok []
  | path :: paths => do
    let ignored ← plainIgnores options rules path
    let kept ← plainFilter options rules paths
    return if ignored then kept else path :: kept

def plainKeeps (options : Options) (rules : List Rule) (paths : List Text) :
    List (Except PathError Bool) :=
  paths.map fun path => (plainIgnores options rules path).map (!·)

/-- Every note is the verdict that the rules give with nothing noted. -/
def NotesValid (set : RuleSet) : Prop :=
  ∀ path verdict, set.noted? path = some verdict → verdict = plainVerdict set.rules path

/-- A set after queries to another one: rules and options stay, and its notes are valid. -/
structure QueriedFrom (before after : RuleSet) : Prop where
  rules : after.rules = before.rules
  options : after.options = before.options
  notes : NotesValid after

theorem NotesValid.queried {set : RuleSet} (h : NotesValid set) : QueriedFrom set set :=
  ⟨rfl, rfl, h⟩

theorem QueriedFrom.trans {first second third : RuleSet} (h : QueriedFrom first second)
    (h' : QueriedFrom second third) : QueriedFrom first third :=
  ⟨h'.rules.trans h.rules, h'.options.trans h.options, h'.notes⟩

theorem notesValid_of_decided_nil {set : RuleSet} (h : set.decided = []) : NotesValid set := by
  intro path verdict hnoted
  simp [noted?, h] at hnoted

/-- Adding rules forgets all notes; adding none keeps notes and rules alike. -/
theorem NotesValid.append {set : RuleSet} (h : NotesValid set) (added : List Rule) :
    NotesValid (set.append added) := by
  unfold RuleSet.append
  split
  · exact h
  · exact notesValid_of_decided_nil rfl

theorem rules_append (set : RuleSet) (added : List Rule) :
    (set.append added).rules = set.rules ++ added := by
  unfold RuleSet.append
  split
  · next h => simp [List.isEmpty_iff.mp h]
  · rfl

theorem options_append (set : RuleSet) (added : List Rule) :
    (set.append added).options = set.options := by
  unfold RuleSet.append
  split <;> rfl

theorem NotesValid.note {set : RuleSet} (h : NotesValid set) (path : Text) :
    QueriedFrom set (set.note path (plainVerdict set.rules path)) := by
  refine ⟨rfl, rfl, ?_⟩
  intro other verdict hnoted
  rw [noted?_note] at hnoted
  split at hnoted
  · next heq => subst heq; exact (Option.some.inj hnoted).symm
  · exact h other verdict hnoted

theorem plainVerdict_eq_walk (rules : List Rule) (path : Text) :
    plainVerdict rules path = walk rules {} (way path) := (verdict_eq_plainVerdict rules path).symm

theorem walk_append (rules : List Rule) (parent : Verdict) (before after : List Text) :
    walk rules parent (before ++ after) = walk rules (walk rules parent before) after :=
  List.foldl_append ..

/-- One step of the way down: noted or not, the verdict is that of the walk to this step. -/
theorem visit_spec {set : RuleSet} (h : NotesValid set) (path : Text) :
    (set.visit (walk set.rules {} (ancestors path)) path).1 = plainVerdict set.rules path ∧
      QueriedFrom set (set.visit (walk set.rules {} (ancestors path)) path).2.1 := by
  have hjudge : (judge set.rules (walk set.rules {} (ancestors path)) path).1 =
      plainVerdict set.rules path := by
    rw [plainVerdict_eq_walk, way, walk_append, walk_cons, walk_nil]
  unfold visit
  cases hnoted : set.noted? path with
  | some verdict => exact ⟨h path verdict hnoted, h.queried⟩
  | none => exact ⟨hjudge, by simpa only [hjudge] using h.note path⟩

/-- The way down from a step on: each step has the steps before it as its ancestors. -/
theorem descend_spec {set : RuleSet} (h : NotesValid set) {before steps : List Text}
    (hsteps : ∀ front step back, steps = front ++ step :: back → ancestors step = before ++ front) :
    (set.descend (walk set.rules {} before) steps).1 = walk set.rules {} (before ++ steps) ∧
      QueriedFrom set (set.descend (walk set.rules {} before) steps).2.1 := by
  induction steps generalizing set before with
  | nil => simpa [descend] using h.queried
  | cons step steps ih =>
    have hanc : ancestors step = before := by simpa using hsteps [] step steps rfl
    obtain ⟨hverdict, hset⟩ := visit_spec h step
    rw [hanc] at hverdict hset
    have hnext : plainVerdict set.rules step = walk set.rules {} (before ++ [step]) := by
      rw [plainVerdict_eq_walk, way, hanc]
    have hlater : ∀ front later back, steps = front ++ later :: back →
        ancestors later = before ++ [step] ++ front := by
      intro front later back heq
      simpa using hsteps (step :: front) later back (by rw [heq]; rfl)
    have hrest := ih hset.notes hlater
    rw [hset.rules] at hrest
    unfold descend
    simp only [hverdict, hnext]
    refine ⟨?_, hset.trans hrest.2⟩
    rw [hrest.1, List.append_assoc, List.singleton_append]

/-- On the way down to a path each step has the steps before it as its ancestors. -/
theorem before_step_of_way (path : Text) (front : List Text) (step : Text) (back : List Text)
    (h : way path = front ++ step :: back) : ancestors step = [] ++ front := by
  rcases List.eq_nil_or_concat back with rfl | ⟨back, last, rfl⟩
  · obtain ⟨rfl, hlast⟩ := List.append_inj' h rfl
    obtain rfl : path = step := by simpa using hlast
    rfl
  · have hlast : ancestors path ++ [path] = (front ++ step :: back) ++ [last] := by
      simpa [way] using h
    exact ancestors_of_eq_append (List.append_inj' hlast rfl).1

/-- A checked path gets the verdict that it gets with nothing noted. -/
theorem evaluate_spec {set : RuleSet} (h : NotesValid set) (path : RelativePath) :
    (set.evaluate path).1 = plainVerdict set.rules path.text ∧
      QueriedFrom set (set.evaluate path).2.1 := by
  unfold evaluate
  cases hnoted : set.noted? path.text with
  | some verdict => exact ⟨h path.text verdict hnoted, h.queried⟩
  | none =>
    rw [plainVerdict_eq_walk]
    exact descend_spec h (before_step_of_way path.text)

theorem test_spec {set : RuleSet} (h : NotesValid set) (path : Text) :
    (set.test path).1 = plainTest set.options set.rules path ∧
      QueriedFrom set (set.test path).2.1 := by
  unfold test plainTest
  cases RelativePath.parse set.options.policy path with
  | error error => exact ⟨rfl, h.queried⟩
  | ok relative =>
    obtain ⟨hverdict, hset⟩ := evaluate_spec h relative
    exact ⟨congrArg Except.ok hverdict, hset⟩

theorem ignores_spec {set : RuleSet} (h : NotesValid set) (path : Text) :
    (set.ignores path).1 = plainIgnores set.options set.rules path ∧
      QueriedFrom set (set.ignores path).2.1 := by
  obtain ⟨hresult, hset⟩ := test_spec h path
  exact ⟨congrArg (Except.map fun verdict : Verdict => verdict.ignored) hresult, hset⟩

theorem filter_spec {set : RuleSet} (h : NotesValid set) (paths : List Text) :
    (set.filter paths).1 = plainFilter set.options set.rules paths ∧
      QueriedFrom set (set.filter paths).2.1 := by
  induction paths generalizing set with
  | nil => exact ⟨rfl, h.queried⟩
  | cons path paths ih =>
    obtain ⟨hresult, hset⟩ := ignores_spec h path
    obtain ⟨hothers, hafter⟩ := ih hset.notes
    rw [hset.options, hset.rules] at hothers
    rcases houtcome : set.ignores path with ⟨_ | ignored, queried, questions⟩
    · rw [houtcome] at hresult hset
      simp only [filter, plainFilter, houtcome, ← hresult]
      exact ⟨rfl, hset⟩
    · rw [houtcome] at hresult hothers hset hafter
      simp only [filter, plainFilter, houtcome, ← hresult, hothers]
      refine ⟨?_, hset.trans hafter⟩
      cases plainFilter set.options set.rules paths <;> rfl

theorem keeps_spec {set : RuleSet} (h : NotesValid set) (paths : List Text) :
    (set.keeps paths).1 = plainKeeps set.options set.rules paths ∧
      QueriedFrom set (set.keeps paths).2.1 := by
  induction paths generalizing set with
  | nil => exact ⟨rfl, h.queried⟩
  | cons path paths ih =>
    obtain ⟨hresult, hset⟩ := ignores_spec h path
    obtain ⟨hothers, hafter⟩ := ih hset.notes
    rw [hset.options, hset.rules] at hothers
    refine ⟨?_, hset.trans hafter⟩
    simp only [keeps, hresult, hothers]
    rfl

end RuleSet

end IgnoreRules
