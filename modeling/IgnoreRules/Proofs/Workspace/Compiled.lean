import IgnoreRules.Proofs.RuleSet.Rearranged
import IgnoreRules.Proofs.Workspace.Invisible

/-! # Sets with compiled rules

In a workspace with a remembering compiler the key of a rule settles what it matches. So lists of
rules that differ in the order of neighbours of one polarity, or in rules that occur again later,
give the same verdicts, and a block of lines that is loaded twice counts once.
-/

namespace IgnoreRules

theorem RuleSet.plainTest_congr {first second : List Rule} (h : ∀ q, own first q = own second q)
    (options : Options) (path : Text) :
    plainTest options first path = plainTest options second path := by
  simp only [plainTest, plainVerdict_congr h]

namespace Workspace

theorem get?_addLines {workspace : Workspace} {name : String} {set : RuleSet}
    (h : workspace.get? name = some set) (lines : List Text) :
    (workspace.perform name (.addLines lines)).2.1.get? name =
      some (set.append (workspace.compiler.rules set.options.case lines).1) := by
  simp only [perform, Workspace.on, h, addLines, get?_put, if_true]

end Workspace

namespace PlainWorkspace

theorem engine_after (workspace : PlainWorkspace) (actions : List (String × Action)) :
    (workspace.after actions).engine = workspace.engine := by
  have hagree : AgreeOn (fun _ => False) workspace (workspace.after actions) :=
    (AgreeOn.refl _ workspace).after fun _ _ _ _ => id
  exact hagree.engine.symm

/-- A block that is loaded twice in a row gives the verdicts that it gives when loaded once. -/
theorem answers_reload (workspace : PlainWorkspace) (name : String) (lines : List Text)
    (path : Text) :
    (workspace.after [(name, .addLines lines), (name, .addLines lines)]).answers
        [(name, .test path)] =
      (workspace.after [(name, .addLines lines)]).answers [(name, .test path)] := by
  cases hset : workspace.sets name with
  | none => simp only [after, perform, PlainWorkspace.on, hset]
  | some set =>
    let block := (PlainRule.ofLines set.options.case lines).map (·.rule workspace.engine)
    have htest := RuleSet.plainTest_congr
      (RuleSet.own_append_self (set.compiled workspace.engine) block) set.options path
    simpa [after, answers, perform, query, PlainWorkspace.on, addLines, put, hset,
      PlainSet.compiled, block] using htest

end PlainWorkspace

/-- A set that a run leaves under a name stands for the plain set that the plain run leaves there. -/
theorem Workspace.exists_plain_of_get? {engine : Engine} {history : List (String × Action)}
    {name : String} {set : RuleSet} (hget : ((start engine).after history).get? name = some set) :
    ∃ plain, (({ engine } : PlainWorkspace).after history).sets name = some plain ∧
      set.StandsFor engine plain := by
  have hsets := ((start_standsFor engine).run history).2.1.sets name
  rw [hget, PlainWorkspace.engine_after] at hsets
  cases hplain : (({ engine } : PlainWorkspace).after history).sets name with
  | none => rw [hplain] at hsets; cases hsets
  | some plain =>
    rw [hplain] at hsets
    cases hsets with
    | some hset => exact ⟨plain, rfl, hset⟩

namespace RuleSet

def ArisesUnder (engine : Engine) (set : RuleSet) : Prop :=
  ∃ history name, ((Workspace.start engine).after history).get? name = some set

variable {engine : Engine} {set : RuleSet}

theorem ArisesUnder.exists_standsFor (h : set.ArisesUnder engine) :
    ∃ plain : PlainSet, set.StandsFor engine plain := by
  obtain ⟨history, name, hget⟩ := h
  obtain ⟨plain, -, hstands⟩ := Workspace.exists_plain_of_get? hget
  exact ⟨plain, hstands⟩

theorem madeBy_compiled (engine : Engine) (plain : PlainSet) :
    MadeBy engine (plain.compiled engine) := by
  intro rule hrule
  obtain ⟨written, -, hwritten⟩ := List.mem_map.mp hrule
  rw [← hwritten]
  rfl

theorem ArisesUnder.madeBy (h : set.ArisesUnder engine) : MadeBy engine set.rules := by
  obtain ⟨plain, hstands⟩ := h.exists_standsFor
  rw [hstands.rules]
  exact madeBy_compiled engine plain

theorem ArisesUnder.test_eq (h : set.ArisesUnder engine) (path : Text) :
    (set.test path).1 = plainTest set.options set.rules path := by
  obtain ⟨plain, hstands⟩ := h.exists_standsFor
  exact (test_spec hstands.notes path).1

/-- Every list of lines is the list of rules of some set. -/
theorem exists_arisesUnder (engine : Engine) (options : Options) (lines : List Text) :
    ∃ set : RuleSet, set.ArisesUnder engine ∧ set.options = options ∧
      set.rules = (PlainRule.ofLines options.case lines).map (·.rule engine) := by
  obtain ⟨made, hrules, -⟩ := (MemoryValid.empty engine).rules options.case lines
  have hcreated : ((Workspace.start engine).after [("main", .create options)]).get? "main" =
      some { options } := Workspace.get?_put ..
  have hadded := Workspace.get?_addLines hcreated lines
  refine ⟨_, ⟨[("main", .create options), ("main", .addLines lines)], "main", hadded⟩,
    options_append _ _, ?_⟩
  have hcompiled : ((Workspace.start engine).compiler.rules options.case lines).1 =
      (PlainRule.ofLines options.case lines).map (·.rule engine) := congrArg Prod.fst hrules
  rw [rules_append, List.nil_append]
  exact hcompiled

/-- Two sets under the same options, be they of one run or of different ones, give the same verdicts
if the rules of one can be rearranged into those of the other; and a block of lines, whatever the
polarities in it, says nothing new when it is added a second time right after the first. -/
theorem test_of_rearranged (engine : Engine) :
    (∀ first second : RuleSet, first.ArisesUnder engine → second.ArisesUnder engine →
      second.options = first.options →
      Relation.ReflTransGen Rearranged first.rules second.rules →
      ∀ path, (second.test path).1 = (first.test path).1) ∧
    ∀ (history : List (String × Action)) (name : String) (block : Action) (path : Text),
      ((∃ lines, block = .addLines lines) ∨ ∃ text, block = .addText text) →
      ((Workspace.start engine).after (history ++ [(name, block), (name, block)])).answers
          [(name, .test path)] =
        ((Workspace.start engine).after (history ++ [(name, block)])).answers
          [(name, .test path)] := by
  constructor
  · intro first second hfirst hsecond hoptions hrearranged path
    have hown := own_eq_of_rearranged hrearranged hfirst.madeBy
    rw [hfirst.test_eq, hsecond.test_eq, hoptions]
    exact (plainTest_congr hown first.options path).symm
  · intro history name block path hblock
    simp only [Workspace.answers_after, PlainWorkspace.after_append]
    rcases hblock with ⟨lines, hlines⟩ | ⟨text, htext⟩
    · rw [hlines]
      exact PlainWorkspace.answers_reload _ name lines path
    · rw [htext]
      exact PlainWorkspace.answers_reload _ name (Text.lines text) path

/-- The first `a` goes, since there is a later one, and `b` and `d` change places; and a block in
which `!c` takes back what `*` excludes is loaded twice. -/
theorem test_of_rearranged_lines :
    (∃ first second : RuleSet, first.ArisesUnder .bounded ∧ second.ArisesUnder .bounded ∧
      first.rules.map (·.origin) = [['a'], ['b'], ['d'], ['!', 'c'], ['a']] ∧
      second.rules.map (·.origin) = [['d'], ['b'], ['!', 'c'], ['a']] ∧
      ∀ path, (second.test path).1 = (first.test path).1) ∧
    ((Workspace.start .bounded).after ([("s", .create {})] ++ [("s", .addLines [['*'], ['!', 'c']]),
        ("s", .addLines [['*'], ['!', 'c']])])).answers [("s", .test ['c'])] =
      ((Workspace.start .bounded).after ([("s", .create {})] ++
        [("s", .addLines [['*'], ['!', 'c']])])).answers [("s", .test ['c'])] := by
  constructor
  · let a : Rule := PlainRule.rule .bounded ⟨['a'], ⟨['a'], false, .insensitive⟩⟩
    let b : Rule := PlainRule.rule .bounded ⟨['b'], ⟨['b'], false, .insensitive⟩⟩
    let c : Rule := PlainRule.rule .bounded ⟨['!', 'c'], ⟨['c'], true, .insensitive⟩⟩
    let d : Rule := PlainRule.rule .bounded ⟨['d'], ⟨['d'], false, .insensitive⟩⟩
    obtain ⟨first, hfirst, hoptions, hrules⟩ := exists_arisesUnder .bounded {}
      [['a'], ['b'], ['d'], ['!', 'c'], ['a']]
    obtain ⟨second, hsecond, hoptions', hrules'⟩ := exists_arisesUnder .bounded {}
      [['d'], ['b'], ['!', 'c'], ['a']]
    have hall : first.rules = [] ++ a :: [b, d, c, a] := hrules
    have hless : second.rules = [] ++ [d, b] ++ [c, a] := hrules'
    have hlater : a ∈ [b, d, c, a] := by simp
    have hleave : Rearranged ([] ++ a :: [b, d, c, a]) ([] ++ [b, d, c, a]) := .leaveOut hlater rfl
    have hpolarity : ∀ rule ∈ [b, d], rule.polarity = .exclude := by
      simp [b, d, PlainRule.rule, Rule.polarity, Polarity.ofNegative]
    have hswap : Rearranged ([] ++ [b, d] ++ [c, a]) ([] ++ [d, b] ++ [c, a]) :=
      .permute hpolarity (List.Perm.swap d b [])
    have hrearranged : Relation.ReflTransGen Rearranged first.rules second.rules := by
      rw [hall, hless]
      exact .head hleave (.single hswap)
    refine ⟨first, second, hfirst, hsecond, ?_, ?_, (test_of_rearranged .bounded).1 first second
      hfirst hsecond (hoptions'.trans hoptions.symm) hrearranged⟩
    · rw [hall]
      rfl
    · rw [hless]
      rfl
  · exact (test_of_rearranged .bounded).2 [("s", .create {})] "s" (.addLines [['*'], ['!', 'c']])
      ['c'] (Or.inl ⟨_, rfl⟩)

end RuleSet

end IgnoreRules
