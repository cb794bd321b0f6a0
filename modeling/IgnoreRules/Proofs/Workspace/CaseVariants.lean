import IgnoreRules.Proofs.Path.Alike
import IgnoreRules.Proofs.Workspace.Compiled
import Mathlib.Data.List.Find

/-! # Verdicts up to case

A matcher that ignores case sees a path only through the spellings of its characters, and these are
the same for all characters that fold alike. So a set whose rules all ignore case cannot tell paths
apart that differ in case only: the directories above them differ in case only, too.
-/

namespace IgnoreRules

variable {engine : Engine} {x y : Text}

theorem Subject.ofText_eq_of_alike (h : Text.Alike x y) :
    Subject.ofText .insensitive x = Subject.ofText .insensitive y := by
  have hmap : x.map CaseSensitivity.insensitive.spellings =
      y.map CaseSensitivity.insensitive.spellings := by
    induction h with
    | nil => rfl
    | cons hab _ ih =>
      rw [List.map_cons, List.map_cons, CaseSensitivity.spellings_eq_of_same hab, ih]
  exact congrArg List.toArray hmap

theorem RegexMatcher.case_compile (key : MatcherKey) (engine : Engine) :
    (compile key engine).case = key.case := by
  unfold compile ofGlob
  split <;> rfl

theorem RegexMatcher.isMatch_eq_of_alike {key : MatcherKey} (hcase : key.case = .insensitive)
    (h : Text.Alike x y) : (compile key engine).isMatch x = (compile key engine).isMatch y := by
  have hmode : (compile key engine).case = .insensitive := (case_compile key engine).trans hcase
  rw [isMatch, isMatch, hmode, Subject.ofText_eq_of_alike h]

namespace RuleSet

def IgnoreCase (rules : List Rule) : Prop := ∀ rule ∈ rules, rule.key.case = .insensitive

variable {rules : List Rule}

theorem own_eq_of_alike (hmade : MadeBy engine rules) (hcase : IgnoreCase rules)
    (h : Text.Alike x y) : own rules x = own rules y := by
  have happlies : ∀ rule ∈ rules.reverse, rule.applies x = rule.applies y := by
    intro rule hrule
    have hmem := List.mem_reverse.mp hrule
    rw [Rule.applies, Rule.applies, hmade rule hmem]
    exact RegexMatcher.isMatch_eq_of_alike (hcase rule hmem) h
  rw [own, own, List.find?_congr happlies]

/-- The way down to a path and that to one that is alike are alike step by step. -/
theorem alike_way (h : Text.Alike x y) : List.Forall₂ Text.Alike (way x) (way y) :=
  List.rel_append (alike_ancestors h) (.cons h .nil)

theorem plainVerdict_eq_of_alike (hmade : MadeBy engine rules) (hcase : IgnoreCase rules)
    (h : Text.Alike x y) : plainVerdict rules x = plainVerdict rules y := by
  have hsteps : (way x).any (own rules · = some .exclude) =
      (way y).any (own rules · = some .exclude) :=
    any_eq_of_forall₂ (fun p q hpq => by simp only [own_eq_of_alike hmade hcase hpq]) (alike_way h)
  rw [plainVerdict_eq, plainVerdict_eq, hsteps, own_eq_of_alike hmade hcase h]

theorem plainTest_eq_of_alike {options : Options} (hstyle : options.pathStyle = .posix)
    (hmade : MadeBy engine rules) (hcase : IgnoreCase rules) (h : Text.Alike x y) :
    (plainTest options rules x).mapError (·.reason) =
      (plainTest options rules y).mapError (·.reason) := by
  have hpolicy : options.policy.style = .posix := hstyle
  rcases RelativePath.parse_alike hpolicy h with
    ⟨error, error', hx, hy, hreason⟩ | ⟨path, path', hx, hy, halike⟩
  · rw [plainTest, plainTest, hx, hy]
    exact congrArg Except.error hreason
  · rw [plainTest, plainTest, hx, hy]
    exact congrArg Except.ok (plainVerdict_eq_of_alike hmade hcase halike)

end RuleSet

/-- Two queries that follow on an addition are both judged by the old and the new rules. -/
theorem PlainWorkspace.answers_tests {workspace : PlainWorkspace} {name : String} {set : PlainSet}
    (hset : workspace.sets name = some set) (lines : List Text) (x y : Text) :
    let extended : PlainSet :=
      { set with rules := set.rules ++ PlainRule.ofLines set.options.case lines }
    let rules := extended.compiled workspace.engine
    workspace.answers [(name, .addLines lines), (name, .test x), (name, .test y)] =
      [.count extended.rules.length, .verdict (RuleSet.plainTest set.options rules x),
        .verdict (RuleSet.plainTest set.options rules y)] := by
  simp [answers, perform, query, PlainWorkspace.on, addLines, put, hset]

namespace Workspace

/-- A set that ignores case, in whatever it was given before and in the lines added now, answers
two paths that are equal up to case alike: both are refused for the same reason, or both get the
same verdict. -/
theorem answers_eq_of_alike (engine : Engine) (history : List (String × Action)) (name : String)
    {set : RuleSet} (hset : ((start engine).after history).get? name = some set)
    (hcase : set.options.ignoreCase = true) (hstyle : set.options.pathStyle = .posix)
    (hrules : ∀ rule ∈ set.rules, rule.key.case = .insensitive) (lines : List Text) {x y : Text}
    (h : Text.Alike x y) :
    ∃ count result result',
      ((start engine).after history).answers
          [(name, .addLines lines), (name, .test x), (name, .test y)] =
        [.count count, .verdict result, .verdict result'] ∧
      result.mapError (·.reason) = result'.mapError (·.reason) := by
  obtain ⟨plain, hplain, hstands⟩ := exists_plain_of_get? hset
  let extended : PlainSet :=
    { plain with rules := plain.rules ++ PlainRule.ofLines plain.options.case lines }
  have hanswers := PlainWorkspace.answers_tests hplain lines x y
  rw [PlainWorkspace.engine_after] at hanswers
  have hposix : plain.options.pathStyle = .posix := by rw [← hstands.options, hstyle]
  have hmode : plain.options.case = .insensitive := by
    rw [← hstands.options, Options.case, hcase]
    rfl
  have hinsensitive : RuleSet.IgnoreCase (extended.compiled engine) := by
    intro rule hrule
    obtain ⟨written, hwritten, hrule⟩ := List.mem_map.mp hrule
    rcases List.mem_append.mp hwritten with hold | hnew
    · apply hrules rule
      rw [hstands.rules, ← hrule]
      exact List.mem_map_of_mem hold
    · obtain ⟨line, -, hline⟩ := List.mem_filterMap.mp hnew
      obtain ⟨pattern, -, hpattern⟩ := Option.map_eq_some_iff.mp hline
      rw [← hrule, ← hpattern]
      exact hmode
  refine ⟨_, _, _, (answers_after engine history _).trans hanswers, ?_⟩
  exact RuleSet.plainTest_eq_of_alike hposix (RuleSet.madeBy_compiled engine extended)
    hinsensitive h

/-- A long s and the kelvin sign in place of `S` and `k`, under a range that a negated class follows. -/
theorem answers_eq_of_alike_kelvin :
    ∃ count result result',
      ((start .bounded).after [("s", .create {})]).answers
          [("s", .addLines [['[', 'r', '-', 't', ']', 'k', '/'], ['!', '[', '!', 'a', ']']]),
            ("s", .test ['\u017f', '\u212a', '/', 'b']), ("s", .test ['S', 'k', '/', 'B'])] =
        [.count count, .verdict result, .verdict result'] ∧
      result.mapError (·.reason) = result'.mapError (·.reason) := by
  have hset : ((start .bounded).after [("s", .create {})]).get? "s" = some { options := {} } :=
    get?_put ..
  have halike : Text.Alike ['\u017f', '\u212a', '/', 'b'] ['S', 'k', '/', 'B'] :=
    .cons (by decide +kernel) (.cons (by decide +kernel) (.cons rfl (.cons (by decide +kernel) .nil)))
  exact answers_eq_of_alike .bounded [("s", .create {})] "s" hset rfl rfl (by simp)
    [['[', 'r', '-', 't', ']', 'k', '/'], ['!', '[', '!', 'a', ']']] halike

end Workspace

end IgnoreRules
