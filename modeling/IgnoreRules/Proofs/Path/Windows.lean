import IgnoreRules.Proofs.Path.Outcomes

/-! # Windows paths

Backslashes count as separators only in paths that can have been written as Windows paths. There the
strict policy lets nothing climb, whichever way the slashes lean. In all other paths a backslash is
part of a name, and what stands around it is not looked at.
-/

namespace IgnoreRules

namespace Path

variable {input : Text}

def isSlash (c : Char) : Bool := c = '/' || c = '\\'

def slashed (input : Text) : Text := input.map fun c => if c = '\\' then '/' else c

/-- No character of the path keeps its backslashes from being turned. -/
def IsPlain (input : Text) : Prop := ∀ c ∈ input, isForeign c = false

instance (input : Text) : Decidable (IsPlain input) :=
  decidable_of_iff (input.any isForeign = false) (by simp [IsPlain])

theorem turnSlashes_of_isPlain (hplain : IsPlain input) (hshare : ¬ ['\\', '\\'] <+: input) :
    turnSlashes input = slashed input := by
  have hdevice : ['\\', '\\', '?', '\\'].isPrefixOf input = false := by
    rw [Bool.eq_false_iff, ne_eq, List.isPrefixOf_iff_prefix]
    intro hdevice
    exact hshare (List.IsPrefix.trans ⟨['?', '\\'], rfl⟩ hdevice)
  have hforeign : input.any isForeign = false := by simpa [IsPlain] using hplain
  rw [turnSlashes, hdevice, hforeign]
  rfl

theorem turnSlashes_of_not_isPlain (h : ¬ IsPlain input) : turnSlashes input = input := by
  have hforeign : input.any isForeign = true := by simpa [IsPlain] using h
  rw [turnSlashes, hforeign, Bool.or_true]
  rfl

theorem turnSlashes_cases (input : Text) :
    turnSlashes input = input ∨ IsPlain input ∧ turnSlashes input = slashed input := by
  by_cases hplain : IsPlain input
  · unfold turnSlashes
    split
    · exact Or.inl rfl
    · exact Or.inr ⟨hplain, rfl⟩
  · exact Or.inl (turnSlashes_of_not_isPlain hplain)

theorem slashed_of_notMem (h : '\\' ∉ input) : slashed input = input := by
  have hkept : ∀ c ∈ input, (if c = '\\' then '/' else c) = c := by
    intro c hc
    have hother : c ≠ '\\' := fun heq => h (heq ▸ hc)
    exact if_neg hother
  rw [slashed, List.map_congr_left hkept, List.map_id']

theorem backslash_notMem_slashed (input : Text) : '\\' ∉ slashed input := by
  intro hmem
  obtain ⟨c, -, hc⟩ := List.mem_map.mp hmem
  split at hc
  · exact absurd hc (by decide)
  · next hne => exact hne hc

theorem slashed_slashed (input : Text) : slashed (slashed input) = slashed input :=
  slashed_of_notMem (backslash_notMem_slashed input)

/-- Between two slashes of any kind stands what stands there once all lean one way. -/
theorem pieces_isSlash (input : Text) :
    pieces isSlash input = pieces (· = '/') (slashed input) := by
  have hboth : ((fun c => decide (c = '/')) ∘ fun c => if c = '\\' then '/' else c) = isSlash := by
    funext c
    by_cases hback : c = '\\' <;> simp [isSlash, hback]
  have hpiece : ∀ piece ∈ pieces isSlash input,
      piece.map (fun c => if c = '\\' then '/' else c) = piece := by
    intro piece hmem
    refine slashed_of_notMem fun hback => ?_
    exact absurd (isSeparator_of_mem_pieces hmem hback) (by decide)
  rw [slashed, pieces_map, hboth, List.map_congr_left hpiece, List.map_id']

/-- A component without a backslash stays one if backslashes separate as well. -/
theorem mem_pieces_isSlash {piece : Text} (h : piece ∈ pieces (· = '/') input)
    (hback : '\\' ∉ piece) : piece ∈ pieces isSlash input := by
  have hwhole : pieces (· = '\\') piece = [piece] :=
    pieces_eq_singleton fun c hc => decide_eq_false fun heq => hback (heq ▸ hc)
  have hboth : pieces isSlash input = (pieces (· = '/') input).flatMap (pieces (· = '\\')) :=
    pieces_or _ _ input
  rw [hboth]
  exact List.mem_flatMap.mpr ⟨piece, h, by simp [hwhole]⟩

theorem slash_isPrefix_slashed : ['/'] <+: slashed input ↔ ['/'] <+: input ∨ ['\\'] <+: input := by
  cases input with
  | nil => simp [slashed]
  | cons c rest =>
    by_cases hback : c = '\\'
    · simp [slashed, List.cons_prefix_cons, hback]
    · simp [slashed, List.cons_prefix_cons, hback, Ne.symm hback]

theorem hasDrive_eq_false_iff : hasDrive input = false ↔
    ∀ letter rest, input = letter :: ':' :: rest → letter.isAlpha = false := by
  constructor
  · intro h letter rest heq
    rw [heq] at h
    exact h
  · intro h
    unfold hasDrive
    split
    · exact h _ _ rfl
    · rfl

theorem hasDrive_slashed (input : Text) : hasDrive (slashed input) = hasDrive input := by
  match input with
  | [] => rfl
  | [c] => rfl
  | c :: d :: rest =>
    by_cases hcolon : d = ':'
    · by_cases hback : c = '\\'
      · rw [hcolon, hback]
        rfl
      · simp [slashed, hasDrive, hback, hcolon]
    · have hturned : (if d = '\\' then '/' else d) ≠ ':' := by
        split
        · decide
        · exact hcolon
      simp [slashed, hasDrive, hturned, hcolon]

theorem hasDrive_turnSlashes (input : Text) : hasDrive (turnSlashes input) = hasDrive input := by
  rcases turnSlashes_cases input with hkept | ⟨-, hturned⟩
  · rw [hkept]
  · rw [hturned, hasDrive_slashed]

theorem shapeFault?_windows_eq_none_iff : shapeFault? .windows input = none ↔
    ¬ ['\\', '\\'] <+: input ∧ hasDrive input = false := by
  rw [← List.isPrefixOf_iff_prefix, shapeFault?, hasDrive_turnSlashes]
  split
  · next hshare => simp [hshare]
  · next hshare =>
    split
    · next hdrive => simp [hdrive]
    · next hdrive => simp [hshare, hdrive]

theorem fault?_strict_eq_none_iff {style : PathStyle} : fault? (.strict style) input = none ↔
    shapeFault? style input = none ∧ componentFault? input (normalize style input) = none := by
  have hstrict : fault? (.strict style) input =
      (shapeFault? style input).or (componentFault? input (normalize style input)) := by
    simp only [fault?, PathPolicy.strict, Bool.false_eq_true, if_false]
    cases shapeFault? style input <;> rfl
  rw [hstrict, Option.or_eq_none_iff]

/-- Once its slashes are turned, a path that is no share says the same about where it leads. -/
theorem descends_normalize_iff (hshare : ¬ ['\\', '\\'] <+: input) :
    ¬ ['/'] <+: normalize .windows input ∧
        ['.', '.'] ∉ pieces (· = '/') (normalize .windows input) ↔
      ¬ ['/'] <+: input ∧ ['.', '.'] ∉ pieces (· = '/') input ∧
        (IsPlain input → ¬ ['\\'] <+: input ∧ ['.', '.'] ∉ pieces isSlash input) := by
  by_cases hplain : IsPlain input
  · have hnormal : normalize .windows input = slashed input := turnSlashes_of_isPlain hplain hshare
    rw [hnormal, slash_isPrefix_slashed, not_or, ← pieces_isSlash]
    constructor
    · intro ⟨⟨hforward, hback⟩, hclimbs⟩
      have honly : ['.', '.'] ∉ pieces (· = '/') input := fun hmem =>
        hclimbs (mem_pieces_isSlash hmem (by decide))
      exact ⟨hforward, honly, fun _ => ⟨hback, hclimbs⟩⟩
    · intro ⟨hforward, _, hboth⟩
      obtain ⟨hback, hclimbs⟩ := hboth hplain
      exact ⟨⟨hforward, hback⟩, hclimbs⟩
  · have hnormal : normalize .windows input = input := turnSlashes_of_not_isPlain hplain
    have hvacuous : IsPlain input → ¬ ['\\'] <+: input ∧ ['.', '.'] ∉ pieces isSlash input :=
      fun h => absurd h hplain
    rw [hnormal]
    exact ⟨fun ⟨hroot, hclimbs⟩ => ⟨hroot, hclimbs, hvacuous⟩,
      fun ⟨hroot, hclimbs, _⟩ => ⟨hroot, hclimbs⟩⟩

end Path

namespace RelativePath

/-- The strict Windows policy accepts the paths that are not rooted, do not climb and do not begin
with a run of dots: they have no drive, no share and no `/` at the start, and none of their
components is `..`. Backslashes are no way around that, except in a path with a character that no
Windows path has. There they are part of the names, and all that is asked of them is not to be two
at the start. -/
theorem exists_parse_strict_windows_iff (input : Text) :
    (∃ path, parse (.strict .windows) input = .ok path) ↔
      input ≠ [] ∧ ¬ Path.DotsFirst (Path.normalize .windows input) ∧
        (∀ letter rest, input = letter :: ':' :: rest → letter.isAlpha = false) ∧
        ¬ ['\\', '\\'] <+: input ∧ ¬ ['/'] <+: input ∧ ['.', '.'] ∉ pieces (· = '/') input ∧
        (Path.IsPlain input → ¬ ['\\'] <+: input ∧ ['.', '.'] ∉ pieces Path.isSlash input) := by
  constructor
  · intro ⟨path, h⟩
    obtain ⟨hne, hfault, -⟩ := parse_eq_ok_iff.mp h
    obtain ⟨hshape, hcomponents⟩ := Path.fault?_strict_eq_none_iff.mp hfault
    obtain ⟨hshare, hdrive⟩ := Path.shapeFault?_windows_eq_none_iff.mp hshape
    obtain ⟨hroot, hdots, hclimbs⟩ := Path.componentFault?_eq_none_iff.mp hcomponents
    exact ⟨hne, hdots, Path.hasDrive_eq_false_iff.mp hdrive, hshare,
      (Path.descends_normalize_iff hshare).mp ⟨hroot, hclimbs⟩⟩
  · intro ⟨hne, hdots, hdrive, hshare, hdescends⟩
    obtain ⟨hroot, hclimbs⟩ := (Path.descends_normalize_iff hshare).mpr hdescends
    have hletter : Path.hasDrive input = false := Path.hasDrive_eq_false_iff.mpr hdrive
    have hshape := Path.shapeFault?_windows_eq_none_iff.mpr ⟨hshare, hletter⟩
    have hcomponents : Path.componentFault? input (Path.normalize .windows input) = none :=
      Path.componentFault?_eq_none_iff.mpr ⟨hroot, hdots, hclimbs⟩
    have hfault := Path.fault?_strict_eq_none_iff.mpr ⟨hshape, hcomponents⟩
    exact ⟨⟨Path.normalize .windows input, Path.normalize_ne_nil .windows hne⟩,
      parse_eq_ok_iff.mpr ⟨hne, hfault, rfl⟩⟩

/-- Names that begin or end with two dots lead nowhere, on whichever slash they border. -/
theorem exists_parse_strict_windows_mixed :
    (∃ path, parse (.strict .windows) ['a', '\\', '.', '.', 'b', '/', 'c', '.', '.'] = .ok path) ∧
      ['.', '.'] ∉ pieces Path.isSlash ['a', '\\', '.', '.', 'b', '/', 'c', '.', '.'] := by
  have hparse : ∃ path,
      parse (.strict .windows) ['a', '\\', '.', '.', 'b', '/', 'c', '.', '.'] = .ok path :=
    ⟨⟨['a', '/', '.', '.', 'b', '/', 'c', '.', '.'], List.cons_ne_nil _ _⟩, rfl⟩
  have hplain : Path.IsPlain ['a', '\\', '.', '.', 'b', '/', 'c', '.', '.'] := by decide
  obtain ⟨-, -, -, -, -, -, hboth⟩ := (exists_parse_strict_windows_iff _).mp hparse
  exact ⟨hparse, (hboth hplain).2⟩

/-- The bar makes the backslashes part of a name, so a path passes that begins with one of them and
has two dots between them. -/
theorem accepts_backslashes_before_bar :
    isValid (.strict .windows) ['\\', '.', '.', '\\', 'a', '|'] = true ∧
      ['\\'] <+: ['\\', '.', '.', '\\', 'a', '|'] ∧
      ['.', '.'] ∈ pieces Path.isSlash ['\\', '.', '.', '\\', 'a', '|'] := by
  decide

end RelativePath

end IgnoreRules
