import IgnoreRules.Proofs.RuleSet.LastMatch
import Mathlib.Logic.Relation

/-! # Rearranged rules

Two changes to a list of rules that leave every verdict as it is. Neighbours of one polarity may
stand in any order: on each step of the way down it only counts whether one of them matches. And a
rule may go if its key occurs again behind it: whatever it would decide is decided there.
-/

namespace IgnoreRules

namespace RuleSet

def MadeBy (engine : Engine) (rules : List Rule) : Prop :=
  ∀ rule ∈ rules, rule.matcher = Matcher.compile rule.key engine

inductive Rearranged : List Rule → List Rule → Prop
  /-- A run of neighbours of one polarity is put into another order. -/
  | permute {before run run' after : List Rule} {polarity : Polarity}
      (hrun : ∀ rule ∈ run, rule.polarity = polarity) (h : run.Perm run') :
      Rearranged (before ++ run ++ after) (before ++ run' ++ after)
  /-- A rule is left out that occurs again later, whatever line it came from. -/
  | leaveOut {before after : List Rule} {rule later : Rule} (hlater : later ∈ after)
      (hkey : later.key = rule.key) : Rearranged (before ++ rule :: after) (before ++ after)

variable {engine : Engine} {first second : List Rule}

theorem own_perm {run run' : List Rule} {polarity : Polarity}
    (hrun : ∀ rule ∈ run, rule.polarity = polarity) (h : run.Perm run') (path : Text) :
    own run path = own run' path := by
  have hrun' : ∀ rule ∈ run', rule.polarity = polarity := fun rule hrule =>
    hrun rule (h.mem_iff.mpr hrule)
  have hany : run.any (·.applies path) = run'.any (·.applies path) := h.any_eq
  rw [own_of_forall_polarity hrun, own_of_forall_polarity hrun', hany]

/-- A rule is not heard if a later one matches the same paths with the same polarity. -/
theorem own_cons_of_later {rule later : Rule} {after : List Rule} {path : Text}
    (hlater : later ∈ after) (happlies : later.applies path = rule.applies path) :
    own (rule :: after) path = own after path := by
  have hsplit : own (rule :: after) path = (own after path).or (own [rule] path) :=
    own_append [rule] after path
  rw [hsplit]
  cases hown : own after path with
  | some polarity => rfl
  | none =>
    have hsilent : rule.applies path = false :=
      happlies.symm.trans (own_eq_none_iff.mp hown later hlater)
    have hrule : own [rule] path = none := own_eq_none_iff.mpr (by simpa using hsilent)
    rw [hrule]
    rfl

theorem Rearranged.subset (h : Rearranged first second) : second ⊆ first := by
  cases h with
  | permute hrun h =>
    intro rule hrule
    simpa [h.mem_iff] using hrule
  | leaveOut hlater hkey =>
    intro rule hrule
    rcases List.mem_append.mp hrule with hbefore | hafter
    · exact List.mem_append_left _ hbefore
    · exact List.mem_append_right _ (List.mem_cons_of_mem _ hafter)

theorem Rearranged.own_eq (h : Rearranged first second) (hmade : MadeBy engine first)
    (path : Text) : own first path = own second path := by
  cases h with
  | permute hrun h => simp only [own_append, own_perm hrun h]
  | @leaveOut before after rule later hlater hkey =>
    have hrule := hmade rule (by simp)
    have hmem : later ∈ before ++ rule :: after :=
      List.mem_append_right _ (List.mem_cons_of_mem _ hlater)
    have hmatcher : later.matcher = rule.matcher := by rw [hrule, hmade later hmem, hkey]
    have happlies : later.applies path = rule.applies path := by
      rw [Rule.applies, Rule.applies, hmatcher]
    rw [own_append, own_append, own_cons_of_later hlater happlies]

/-- Any number of changes leaves what the rules say about each step: the matchers of a changed list
are still those that the engine makes. -/
theorem own_eq_of_rearranged (h : Relation.ReflTransGen Rearranged first second)
    (hmade : MadeBy engine first) (path : Text) : own first path = own second path := by
  induction h using Relation.ReflTransGen.head_induction_on with
  | refl => rfl
  | head hstep _ ih =>
    have hnext : MadeBy engine _ := fun rule hrule => hmade rule (hstep.subset hrule)
    exact (hstep.own_eq hmade path).trans (ih hnext)

/-- Rules that are given a second time right away say nothing new. -/
theorem own_append_self (rules block : List Rule) (path : Text) :
    own (rules ++ block ++ block) path = own (rules ++ block) path := by
  rw [own_append, own_append, ← Option.or_assoc, Option.or_self]

end RuleSet

end IgnoreRules
