import IgnoreRules.Proofs.Path.Windows
import IgnoreRules.Proofs.RuleSet.ClosedForm

/-! # Paths written in two ways

A Windows path with its slashes turned is the same path: whatever is asked about one of them can be
asked about the other. A path that was accepted once is accepted again as it then stands, whatever
the policy is, so nothing is gained or lost by checking twice.
-/

namespace IgnoreRules

namespace Path

variable {input : Text}

theorem turnSlashes_slashed (input : Text) : turnSlashes (slashed input) = slashed input := by
  rcases turnSlashes_cases (slashed input) with hkept | ⟨-, hturned⟩
  · exact hkept
  · rw [hturned, slashed_slashed]

theorem normalize_normalize (style : PathStyle) (input : Text) :
    normalize style (normalize style input) = normalize style input := by
  cases style with
  | posix => rfl
  | windows =>
    change turnSlashes (turnSlashes input) = turnSlashes input
    rcases turnSlashes_cases input with hkept | ⟨-, hturned⟩
    · rw [hkept, hkept]
    · rw [hturned, turnSlashes_slashed]

/-- A path and the same path with its slashes turned are both objected to or both not. The reason
may differ: a share written with `/` is an absolute path. -/
theorem fault?_slashed_eq_none_iff (hplain : IsPlain input) :
    fault? (.strict .windows) (slashed input) = none ↔ fault? (.strict .windows) input = none := by
  have hnormal : normalize .windows (slashed input) = slashed input := turnSlashes_slashed input
  have hforward : ¬ ['\\', '\\'] <+: slashed input := fun hshare =>
    backslash_notMem_slashed input (hshare.subset List.mem_cons_self)
  rw [fault?_strict_eq_none_iff, fault?_strict_eq_none_iff, shapeFault?_windows_eq_none_iff,
    shapeFault?_windows_eq_none_iff, hnormal, hasDrive_slashed, componentFault?_eq_none_iff,
    componentFault?_eq_none_iff]
  by_cases hshare : ['\\', '\\'] <+: input
  · have hroot : ['/'] <+: slashed input :=
      slash_isPrefix_slashed.mpr (Or.inr (List.IsPrefix.trans ⟨['\\'], rfl⟩ hshare))
    simp [hshare, hroot]
  · have hturned : normalize .windows input = slashed input := turnSlashes_of_isPlain hplain hshare
    rw [hturned]
    simp [hshare, hforward]

theorem fault?_normalize {policy : PathPolicy} (h : fault? policy input = none) :
    fault? policy (normalize policy.style input) = none := by
  obtain ⟨allowed, style⟩ := policy
  cases allowed with
  | true => rfl
  | false =>
    cases style with
    | posix => exact h
    | windows =>
      change fault? (.strict .windows) (turnSlashes input) = none
      rcases turnSlashes_cases input with hkept | ⟨hplain, hturned⟩
      · rw [hkept]
        exact h
      · rw [hturned]
        exact (fault?_slashed_eq_none_iff hplain).mpr h

end Path

namespace RelativePath

variable {policy : PathPolicy} {input : Text} {path : RelativePath}

theorem isValid_iff :
    isValid policy input = true ↔ input ≠ [] ∧ Path.fault? policy input = none := by
  unfold isValid parse
  by_cases hnil : input = []
  · simp [hnil]
  · rw [dif_neg hnil]
    cases Path.fault? policy input <;> simp [hnil]

/-- What was accepted is in normal form, and it is accepted as that. -/
theorem parse_text (h : parse policy input = .ok path) : parse policy path.text = .ok path := by
  obtain ⟨-, hfault, htext⟩ := parse_eq_ok_iff.mp h
  have hagain : Path.fault? policy path.text = none := by
    rw [htext]
    exact Path.fault?_normalize hfault
  have hnormal : path.text = Path.normalize policy.style path.text := by
    rw [htext, Path.normalize_normalize]
  exact parse_eq_ok_iff.mpr ⟨path.text_ne_nil, hagain, hnormal⟩

theorem isValid_slashed (hplain : Path.IsPlain input) :
    isValid (.strict .windows) (Path.slashed input) = isValid (.strict .windows) input := by
  have hnil : Path.slashed input = [] ↔ input = [] := List.map_eq_nil_iff
  rw [Bool.eq_iff_iff, isValid_iff, isValid_iff, ne_eq, hnil,
    Path.fault?_slashed_eq_none_iff hplain]

theorem parse_slashed (hplain : Path.IsPlain input)
    (h : parse (.strict .windows) input = .ok path) :
    parse (.strict .windows) (Path.slashed input) = .ok path := by
  obtain ⟨hne, hfault, htext⟩ := parse_eq_ok_iff.mp h
  have hshare := (Path.shapeFault?_windows_eq_none_iff.mp
    (Path.fault?_strict_eq_none_iff.mp hfault).1).1
  have hturned : Path.normalize .windows input = Path.slashed input :=
    Path.turnSlashes_of_isPlain hplain hshare
  have hnormal : Path.normalize .windows (Path.slashed input) = Path.slashed input :=
    Path.turnSlashes_slashed input
  refine parse_eq_ok_iff.mpr ⟨?_, (Path.fault?_slashed_eq_none_iff hplain).mpr hfault, ?_⟩
  · exact fun hnil => hne (List.map_eq_nil_iff.mp hnil)
  · change path.text = Path.normalize .windows (Path.slashed input)
    rw [htext, hnormal]
    exact hturned

end RelativePath

namespace RuleSet

/-- Under the strict Windows policy a path without foreign characters may be written with either
slash. Both spellings are valid or neither is, and if they are valid they stand for one and the same
path, with the same ancestors, and get the same verdict, whatever else was asked before one of them.
And under every policy a path that was accepted is accepted again, as the path that it is. -/
theorem slashes_immaterial :
    (∀ set later : RuleSet, Reachable set → Reachable later → later.rules = set.rules →
      later.options = set.options → set.options.policy = .strict .windows →
      ∀ input, Path.IsPlain input →
        RelativePath.isValid set.options.policy (Path.slashed input) =
            RelativePath.isValid set.options.policy input ∧
          ∀ path, RelativePath.parse set.options.policy input = .ok path →
            RelativePath.parse set.options.policy (Path.slashed input) = .ok path ∧
            ∃ verdict, (set.test input).1 = .ok verdict ∧
              (later.test (Path.slashed input)).1 = .ok verdict) ∧
    ∀ policy input path, RelativePath.parse policy input = .ok path →
      RelativePath.parse policy path.text = .ok path := by
  refine ⟨?_, fun policy input path => RelativePath.parse_text⟩
  intro set later hset hlater hrules hoptions hpolicy input hplain
  refine ⟨by rw [hpolicy]; exact RelativePath.isValid_slashed hplain, ?_⟩
  intro path hpath
  have hslashed : RelativePath.parse set.options.policy (Path.slashed input) = .ok path := by
    rw [hpolicy] at hpath ⊢
    exact RelativePath.parse_slashed hplain hpath
  have hlaterPath : RelativePath.parse later.options.policy (Path.slashed input) = .ok path := by
    rw [hoptions]
    exact hslashed
  have hverdict := hlater.test_eq hlaterPath
  rw [hrules] at hverdict
  exact ⟨hslashed, _, hset.test_eq hpath, hverdict⟩

/-- The directory `a/` is excluded, and it is asked about before `a/b` is. A share that a lenient
policy takes for a path stays that path. -/
theorem slashes_immaterial_below_excluded :
    let rule : Rule := ⟨[], ⟨[], false, .sensitive⟩, ⟨[], (· = ['a', '/'])⟩⟩
    let set : RuleSet := ({ options := { pathStyle := .windows } } : RuleSet).append [rule]
    (set.test ['a', '\\', 'b']).1 = .ok ⟨true, false⟩ ∧
      ((set.test ['a', '/']).2.1.test ['a', '/', 'b']).1 = .ok ⟨true, false⟩ ∧
      (RelativePath.parse ⟨true, .windows⟩ ['\\', '\\', 's']).map (·.text) = .ok ['/', '/', 's'] ∧
      (RelativePath.parse ⟨true, .windows⟩ ['/', '/', 's']).map (·.text) = .ok ['/', '/', 's'] := by
  intro rule set
  have hset : Reachable set := (Reachable.create _).append [rule]
  have hplain : Path.IsPlain ['a', '\\', 'b'] := by decide
  have hpath : RelativePath.parse set.options.policy ['a', '\\', 'b'] =
      .ok ⟨['a', '/', 'b'], List.cons_ne_nil _ _⟩ := rfl
  obtain ⟨-, hsame⟩ := slashes_immaterial.1 set _ hset (hset.test ['a', '/']) rfl rfl rfl
    ['a', '\\', 'b'] hplain
  obtain ⟨-, verdict, hfirst, hlater⟩ := hsame _ hpath
  have hverdict : verdict = ⟨true, false⟩ := Except.ok.inj (hfirst.symm.trans rfl)
  rw [hverdict] at hfirst hlater
  have hshare : RelativePath.parse ⟨true, .windows⟩ ['\\', '\\', 's'] =
      .ok ⟨['/', '/', 's'], List.cons_ne_nil _ _⟩ := rfl
  have hagain := slashes_immaterial.2 _ _ _ hshare
  exact ⟨hfirst, hlater, by rw [hshare]; rfl, congrArg (Except.map (·.text)) hagain⟩

end RuleSet

end IgnoreRules
