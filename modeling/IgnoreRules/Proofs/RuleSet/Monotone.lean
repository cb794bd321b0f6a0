import IgnoreRules.Proofs.RuleSet.ClosedForm

/-! # Adding rules of one polarity

Wherever exclusions are put into a list of rules, all that was ignored stays ignored; wherever
re-inclusions are put, nothing new is ignored. On each step of the way down the last matching rule
decides, so the rules behind the new ones may undo them there, but they cannot turn them around.
-/

namespace IgnoreRules

namespace RuleSet

variable {before added after : List Rule} {path : Text}

/-- Rules put into a list are heard where the rules behind them are silent. -/
theorem own_insert (before added after : List Rule) (path : Text) :
    own (before ++ added ++ after) path =
      (own after path).or ((own added path).or (own before path)) := by
  rw [own_append, own_append]

theorem own_insert_of_exclude (hadded : ∀ rule ∈ added, rule.polarity = .exclude)
    (h : own (before ++ after) path = some .exclude) :
    own (before ++ added ++ after) path = some .exclude := by
  rw [own_append] at h
  rw [own_insert]
  cases hafter : own after path with
  | some polarity => simpa [hafter] using h
  | none =>
    have hbefore : own before path = some .exclude := by simpa [hafter] using h
    rw [own_of_forall_polarity hadded, hbefore]
    split <;> rfl

theorem own_of_insert_reinclude (hadded : ∀ rule ∈ added, rule.polarity = .reinclude)
    (h : own (before ++ added ++ after) path = some .exclude) :
    own (before ++ after) path = some .exclude := by
  rw [own_insert] at h
  rw [own_append]
  cases hafter : own after path with
  | some polarity => simpa [hafter] using h
  | none =>
    have hinner : (own added path).or (own before path) = some .exclude := by
      simpa [hafter] using h
    rw [own_of_forall_polarity hadded] at hinner
    -- A re-inclusion that is heard here would contradict what is said.
    split at hinner
    · cases hinner
    · exact hinner

/-- A list that excludes every step that another one excludes ignores all that the other ignores:
the way down to a path is the same for both. -/
theorem plainVerdict_ignored_mono {first second : List Rule}
    (h : ∀ q, own first q = some .exclude → own second q = some .exclude)
    (hignored : (plainVerdict first path).ignored = true) :
    (plainVerdict second path).ignored = true := by
  obtain ⟨q, hq, hown⟩ := plainVerdict_ignored_iff.mp hignored
  exact plainVerdict_ignored_iff.mpr ⟨q, hq, h q hown⟩

theorem Reachable.ignores_eq {set : RuleSet} (hset : Reachable set) {input : Text}
    {path : RelativePath} (hpath : RelativePath.parse set.options.policy input = .ok path) :
    (set.ignores input).1 = .ok (plainVerdict set.rules path.text).ignored :=
  congrArg (Except.map fun verdict : Verdict => verdict.ignored) (hset.test_eq hpath)

/-- Two sets under the same options, the rules of one being those of the other with some more put in
at any one place. If these all exclude, what was ignored is still ignored; if they all include
again, what is ignored was ignored before. -/
theorem ignores_of_insert {fewer more : RuleSet} (hfewer : Reachable fewer)
    (hmore : Reachable more) (hoptions : more.options = fewer.options)
    {before added after : List Rule} (hwithout : fewer.rules = before ++ after)
    (hwith : more.rules = before ++ added ++ after) {input : Text} {path : RelativePath}
    (hpath : RelativePath.parse fewer.options.policy input = .ok path) :
    ∃ ignored ignored', (fewer.ignores input).1 = .ok ignored ∧
      (more.ignores input).1 = .ok ignored' ∧
      ((∀ rule ∈ added, rule.polarity = .exclude) → ignored = true → ignored' = true) ∧
      ((∀ rule ∈ added, rule.polarity = .reinclude) → ignored' = true → ignored = true) := by
  have hpath' : RelativePath.parse more.options.policy input = .ok path := by
    rw [hoptions]
    exact hpath
  refine ⟨_, _, hfewer.ignores_eq hpath, hmore.ignores_eq hpath', ?_, ?_⟩
  · intro hadded
    rw [hwithout, hwith]
    exact plainVerdict_ignored_mono fun q => own_insert_of_exclude hadded
  · intro hadded
    rw [hwithout, hwith]
    exact plainVerdict_ignored_mono fun q => own_of_insert_reinclude hadded

/-- `a/b` is excluded anew between two rules that exclude `a/` and include `a/b` again, and after a
query. -/
theorem ignores_of_insert_between :
    let outer : Rule := ⟨[], ⟨[], false, .sensitive⟩, ⟨[], (· = ['a', '/'])⟩⟩
    let inner : Rule := ⟨[], ⟨[], false, .sensitive⟩, ⟨[], (· = ['a', '/', 'b'])⟩⟩
    let again : Rule := ⟨[], ⟨[], true, .sensitive⟩, ⟨[], (· = ['a', '/', 'b'])⟩⟩
    let first : RuleSet := ({ options := {} } : RuleSet).append [outer]
    ((first.append [again]).ignores ['a', '/', 'b']).1 = .ok true ∧
      (((first.test ['a', '/', 'b']).2.1.append [inner, again]).ignores ['a', '/', 'b']).1 =
        .ok true := by
  intro outer inner again first
  have hfirst : Reachable first := (Reachable.create {}).append [outer]
  have hpath : RelativePath.parse (Options.policy {}) ['a', '/', 'b'] =
      .ok ⟨['a', '/', 'b'], List.cons_ne_nil _ _⟩ := rfl
  have hwithout : (first.append [again]).rules = [outer] ++ [again] := rfl
  have hwith : ((first.test ['a', '/', 'b']).2.1.append [inner, again]).rules =
      [outer] ++ [inner] ++ [again] := rfl
  obtain ⟨ignored, ignored', hless, hmore, hmono, -⟩ := ignores_of_insert
    (hfirst.append [again]) ((hfirst.test ['a', '/', 'b']).append [inner, again]) rfl
    hwithout hwith hpath
  have hignored : ignored = true := Except.ok.inj (hless.symm.trans rfl)
  have hignored' : ignored' = true := hmono (by simp [inner, Rule.polarity, Polarity.ofNegative])
    hignored
  rw [hless, hmore, hignored, hignored']
  exact ⟨rfl, rfl⟩

end RuleSet

end IgnoreRules
