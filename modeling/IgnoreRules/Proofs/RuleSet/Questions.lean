import IgnoreRules.Proofs.RuleSet.Notes

/-! # What is asked about a single step

Judging a step of the way down puts questions to the rules in their order, at most one to each. A
rule is asked only while it can still change the state that the rules before it lead to, and no rule
is asked about a step below an ignored one.
-/

namespace IgnoreRules

/-- The question comes first: about a directory further out, or about the same step to an earlier
rule. -/
def Question.Before (first second : Question) : Prop :=
  first.path ∈ ancestors second.path ∨
    first.path = second.path ∧ first.position < second.position

namespace RuleSet

def questionsOn (rules : List Rule) (step : Text) : List Question :=
  (judge rules (walk rules {} (ancestors step)) step).2

/-- A question to the rule at some place of a list, which the rules before it leave something to
change. -/
structure Asked (path : Text) (position : Nat) (state : Decision) (rules : List Rule) (i : Nat)
    (question : Question) : Prop where
  position_eq : question.position = position + i
  rule_eq : rules[i]? = some question.rule
  path_eq : question.path = path
  canChange : (applyRules path position state (rules.take i)).1.canChange
    question.rule.polarity = true

theorem exists_asked {path : Text} {position : Nat} {state : Decision} {rules : List Rule}
    {question : Question} (h : question ∈ (applyRules path position state rules).2) :
    ∃ i, Asked path position state rules i question := by
  induction rules generalizing position state with
  | nil => simp [applyRules] at h
  | cons rule rules ih =>
    by_cases hcan : state.canChange rule.polarity = true
    · have hall : applyRules path position state (rule :: rules) =
          ((applyRules path (position + 1) (state.apply rule.polarity (rule.applies path)) rules).1,
            ⟨position, rule, path, rule.applies path⟩ ::
              (applyRules path (position + 1) (state.apply rule.polarity (rule.applies path))
                rules).2) := by
        rw [applyRules, if_pos hcan]
      rw [hall] at h
      rcases List.mem_cons.mp h with hfirst | hlater
      · rw [hfirst]
        exact ⟨0, rfl, rfl, rfl, hcan⟩
      · obtain ⟨i, hi⟩ := ih hlater
        have hposition := hi.position_eq
        refine ⟨i + 1, by omega, hi.rule_eq, hi.path_eq, ?_⟩
        rw [List.take_succ_cons, applyRules, if_pos hcan]
        exact hi.canChange
    · rw [applyRules, if_neg hcan] at h
      obtain ⟨i, hi⟩ := ih h
      have hposition := hi.position_eq
      refine ⟨i + 1, by omega, hi.rule_eq, hi.path_eq, ?_⟩
      rw [List.take_succ_cons, applyRules, if_neg hcan]
      exact hi.canChange

theorem pairwise_applyRules (path : Text) (position : Nat) (state : Decision) (rules : List Rule) :
    (applyRules path position state rules).2.Pairwise (·.position < ·.position) := by
  induction rules generalizing position state with
  | nil => exact .nil
  | cons rule rules ih =>
    by_cases hcan : state.canChange rule.polarity = true
    · rw [applyRules, if_pos hcan]
      refine List.pairwise_cons.mpr ⟨?_, ih _ _⟩
      intro later hlater
      obtain ⟨i, hi⟩ := exists_asked hlater
      have hposition := hi.position_eq
      change position < later.position
      omega
    · rw [applyRules, if_neg hcan]
      exact ih _ _

/-- An ignored ancestor is an ignored step on the way down to all that lies below it. -/
theorem walk_ancestors_ignored {rules : List Rule} {path above : Text}
    (habove : above ∈ ancestors path) (hignored : (plainVerdict rules above).ignored = true) :
    (walk rules {} (ancestors path)).ignored = true := by
  obtain ⟨before, after, hsplit⟩ := List.append_of_mem habove
  have hway : walk rules {} (before ++ [above]) = plainVerdict rules above := by
    rw [plainVerdict_eq_walk, way, ancestors_of_eq_append hsplit]
  have hcut : ancestors path = before ++ [above] ++ after := by simpa using hsplit
  rw [hcut, walk_append, hway, walk_of_ignored hignored]
  exact hignored

theorem questionsOn_of_not_ignored {rules : List Rule} {step : Text}
    (h : (walk rules {} (ancestors step)).ignored = false) :
    questionsOn rules step = (applyRules step 0 .included rules).2 := by
  rw [questionsOn, judge, if_neg (by simp [h])]

theorem questionsOn_of_ignored {rules : List Rule} {step : Text}
    (h : (walk rules {} (ancestors step)).ignored = true) : questionsOn rules step = [] := by
  rw [questionsOn, judge, if_pos h]

theorem asked_of_mem_questionsOn {rules : List Rule} {step : Text} {question : Question}
    (h : question ∈ questionsOn rules step) :
    Asked step 0 .included rules question.position question ∧
      ∀ above ∈ ancestors step, (plainVerdict rules above).ignored = false := by
  cases hparent : (walk rules {} (ancestors step)).ignored with
  | true => simp [questionsOn_of_ignored hparent] at h
  | false =>
    rw [questionsOn_of_not_ignored hparent] at h
    obtain ⟨i, hi⟩ := exists_asked h
    have hposition : question.position = i := by simpa using hi.position_eq
    constructor
    · rw [hposition]
      exact hi
    · intro above habove
      by_contra hignored
      rw [Bool.not_eq_false] at hignored
      rw [walk_ancestors_ignored habove hignored] at hparent
      cases hparent

theorem pairwise_questionsOn (rules : List Rule) (step : Text) :
    (questionsOn rules step).Pairwise (·.position < ·.position) := by
  cases hparent : (walk rules {} (ancestors step)).ignored with
  | true =>
    rw [questionsOn_of_ignored hparent]
    exact .nil
  | false =>
    rw [questionsOn_of_not_ignored hparent]
    exact pairwise_applyRules step 0 .included rules

end RuleSet

end IgnoreRules
