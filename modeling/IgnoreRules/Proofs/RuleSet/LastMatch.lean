import IgnoreRules.RuleSet.Evaluation
import Mathlib.Data.List.Induction

/-! # The last rule that matches

Neither the states that the rules pass through nor the rules that are not asked show in a verdict.
For a single path or directory it is the last matching rule that counts; below the root it is that
rule together with what it says about the directories above.
-/

namespace IgnoreRules

namespace RuleSet

def own (rules : List Rule) (path : Text) : Option Polarity :=
  (rules.reverse.find? (·.applies path)).map (·.polarity)

def decideAll (rules : List Rule) (path : Text) : Decision :=
  rules.foldl (fun state rule => state.apply rule.polarity (rule.applies path)) .included

/-- The verdict on a checked path with nothing noted and no rule left out. -/
def plainVerdict (rules : List Rule) (path : Text) : Verdict :=
  (way path).foldl (fun parent step =>
    if parent.ignored then parent else (decideAll rules step).verdict) {}

/-- Leaving out the rules that cannot change the state does not change it either. -/
theorem applyRules_fst (path : Text) (position : Nat) (state : Decision) (rules : List Rule) :
    (applyRules path position state rules).1 =
      rules.foldl (fun state rule => state.apply rule.polarity (rule.applies path)) state := by
  induction rules generalizing position state with
  | nil => rfl
  | cons rule rules ih =>
    by_cases h : state.canChange rule.polarity = true
    · simp [applyRules, h, ih]
    · rw [Bool.not_eq_true] at h
      simp [applyRules, h, ih, Decision.apply_of_not_canChange h]

theorem own_append_singleton (rules : List Rule) (rule : Rule) (path : Text) :
    own (rules ++ [rule]) path =
      if rule.applies path then some rule.polarity else own rules path := by
  by_cases h : rule.applies path = true <;> simp [own, h]

/-- Where two lists of rules are joined, the later list decides whatever it has a say in. -/
theorem own_append (front back : List Rule) (path : Text) :
    own (front ++ back) path = (own back path).or (own front path) := by
  have hfind : (front ++ back).reverse.find? (·.applies path) =
      (back.reverse.find? (·.applies path)).or (front.reverse.find? (·.applies path)) := by
    rw [List.reverse_append, List.find?_append]
  rw [own, hfind, Option.map_or]
  rfl

/-- What decides is the polarity of some rule that matches. -/
theorem exists_of_own {rules : List Rule} {path : Text} {polarity : Polarity}
    (h : own rules path = some polarity) :
    ∃ rule ∈ rules, rule.applies path = true ∧ rule.polarity = polarity := by
  obtain ⟨rule, hfound, hpolarity⟩ := Option.map_eq_some_iff.mp h
  have hmem : rule ∈ rules := by simpa using List.mem_of_find?_eq_some hfound
  have happlies : rule.applies path = true := by simpa using List.find?_some hfound
  exact ⟨rule, hmem, happlies, hpolarity⟩

theorem own_eq_none_iff {rules : List Rule} {path : Text} :
    own rules path = none ↔ ∀ rule ∈ rules, rule.applies path = false := by
  simp [own]

/-- Rules of a single polarity say that polarity, or nothing if none of them matches. -/
theorem own_of_forall_polarity {rules : List Rule} {polarity : Polarity}
    (h : ∀ rule ∈ rules, rule.polarity = polarity) (path : Text) :
    own rules path = if rules.any (·.applies path) then some polarity else none := by
  split
  · next hany =>
    obtain ⟨rule, hmem, happlies⟩ := List.any_eq_true.mp hany
    cases hown : own rules path with
    | none => simp [own_eq_none_iff.mp hown rule hmem] at happlies
    | some found =>
      obtain ⟨last, hlast, -, hpolarity⟩ := exists_of_own hown
      rw [← hpolarity, h last hlast]
  · next hany => simpa [own_eq_none_iff] using hany

/-- The state after all rules is the target of the last one that matches. -/
theorem decideAll_eq (rules : List Rule) (path : Text) :
    decideAll rules path = ((own rules path).map Decision.target).getD .included := by
  induction rules using List.reverseRecOn with
  | nil => rfl
  | append_singleton rules rule ih =>
    rw [own_append_singleton, decideAll, List.foldl_append]
    change (decideAll rules path).apply rule.polarity (rule.applies path) = _
    by_cases h : rule.applies path = true
    · simp [h]
    · simp [h, ih]

theorem decideAll_eq_excluded_iff {rules : List Rule} {path : Text} :
    decideAll rules path = .excluded ↔ own rules path = some .exclude := by
  rw [decideAll_eq]
  rcases own rules path with _ | _ | _ <;> simp [Decision.target]

theorem judge_fst (rules : List Rule) (parent : Verdict) (path : Text) :
    (judge rules parent path).1 =
      if parent.ignored then parent else (decideAll rules path).verdict := by
  unfold judge
  split
  · rfl
  · simp only [applyRules_fst]
    rfl

theorem verdict_eq_plainVerdict (rules : List Rule) (path : Text) :
    verdict rules path = plainVerdict rules path := by
  simp only [verdict, plainVerdict, judge_fst]

/-- The verdict on the last of several steps, the first of which stands below `parent`. -/
def walk (rules : List Rule) (parent : Verdict) (steps : List Text) : Verdict :=
  steps.foldl (fun parent step => (judge rules parent step).1) parent

@[simp] theorem walk_nil (rules : List Rule) (parent : Verdict) : walk rules parent [] = parent :=
  rfl

theorem walk_cons (rules : List Rule) (parent : Verdict) (step : Text) (steps : List Text) :
    walk rules parent (step :: steps) = walk rules (judge rules parent step).1 steps := rfl

theorem walk_of_ignored {rules : List Rule} {parent : Verdict} (h : parent.ignored = true)
    (steps : List Text) : walk rules parent steps = parent := by
  induction steps with
  | nil => rfl
  | cons step steps ih =>
    have hstep : (judge rules parent step).1 = parent := by rw [judge_fst, if_pos h]
    rw [walk_cons, hstep, ih]

/-- A walk ends ignored as soon as one step is excluded, and otherwise as the last step says. -/
theorem walk_append_singleton {rules : List Rule} {parent : Verdict} (h : parent.ignored = false)
    (steps : List Text) (path : Text) :
    walk rules parent (steps ++ [path]) =
      if (steps ++ [path]).any (own rules · = some .exclude) then ⟨true, false⟩
      else ⟨false, own rules path = some .reinclude⟩ := by
  induction steps generalizing parent with
  | nil =>
    simp only [List.nil_append, walk_cons, walk_nil, List.any_cons, List.any_nil, Bool.or_false,
      judge_fst, h, Bool.false_eq_true, if_false, decideAll_eq]
    rcases own rules path with _ | _ | _ <;> rfl
  | cons step steps ih =>
    have hstep : (judge rules parent step).1 = (decideAll rules step).verdict := by
      rw [judge_fst, if_neg (by simp [h])]
    rw [List.cons_append, walk_cons, hstep, List.any_cons]
    by_cases hown : own rules step = some .exclude
    · have hstate := decideAll_eq_excluded_iff.mpr hown
      rw [hstate, walk_of_ignored (by rfl)]
      simp [hown, Decision.verdict]
    · have hstate : (decideAll rules step).verdict.ignored = false := by
        simpa [Decision.verdict] using mt decideAll_eq_excluded_iff.mp hown
      rw [ih hstate]
      simp [hown]

/-- The verdict in closed form: some step of the way down is excluded by its last matching rule, or
else the path is expressly included again, or no rule has a say. -/
theorem plainVerdict_eq (rules : List Rule) (path : Text) :
    plainVerdict rules path =
      if (way path).any (own rules · = some .exclude) then ⟨true, false⟩
      else ⟨false, own rules path = some .reinclude⟩ := by
  rw [← verdict_eq_plainVerdict]
  exact walk_append_singleton rfl (ancestors path) path

/-- What a list of rules says about each step is all that a verdict depends on. -/
theorem plainVerdict_congr {first second : List Rule} (h : ∀ q, own first q = own second q)
    (path : Text) : plainVerdict first path = plainVerdict second path := by
  simp only [plainVerdict_eq, h]

theorem plainVerdict_ignored_iff {rules : List Rule} {path : Text} :
    (plainVerdict rules path).ignored = true ↔
      ∃ q, (q ∈ ancestors path ∨ q = path) ∧ own rules q = some .exclude := by
  rw [plainVerdict_eq]
  split
  · next h => simpa [way] using h
  · next h => simpa [way] using h

theorem plainVerdict_unignored_iff {rules : List Rule} {path : Text} :
    (plainVerdict rules path).unignored = true ↔
      (plainVerdict rules path).ignored = false ∧ own rules path = some .reinclude := by
  rw [plainVerdict_eq]
  split <;> simp

theorem plainVerdict_of_ignored {rules : List Rule} {path : Text}
    (h : (plainVerdict rules path).ignored = true) : plainVerdict rules path = ⟨true, false⟩ := by
  rw [plainVerdict_eq] at h ⊢
  split
  · rfl
  · next hnone => simp [hnone] at h

/-- What a rule includes again is included again itself, not what lies below it. -/
theorem plainVerdict_of_own_none {rules : List Rule} {path : Text}
    (habove : ∀ q ∈ ancestors path, own rules q ≠ some .exclude) (hown : own rules path = none) :
    plainVerdict rules path = ⟨false, false⟩ := by
  rw [plainVerdict_eq, if_neg, hown]
  · rfl
  · simpa [way, hown] using habove

end RuleSet

end IgnoreRules
