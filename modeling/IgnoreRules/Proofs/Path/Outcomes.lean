import IgnoreRules.Path.Basic
import IgnoreRules.Proofs.Text.Pieces

/-! # Outcomes of the strict policy

Where `/` alone separates and paths must lead downwards, the outcome can be read off the text of a
path: the reasons of refusal say what they are for, in a fixed order. One group of paths is refused
without falling under the reason that it is given: those with more than two dots as the first of
several components.
-/

namespace IgnoreRules

namespace Path

variable {input normal : Text}

/-- The path starts with `./` or consists only of dots, other than `..` itself. -/
def IsUnrelativized (input : Text) : Prop :=
  ['.', '/'] <+: input ∨ (∀ c ∈ input, c = '.') ∧ input ≠ ['.', '.']

instance (input : Text) : Decidable (IsUnrelativized input) :=
  decidable_of_iff (['.', '/'] <+: input ∨ input.all (· = '.') = true ∧ input ≠ ['.', '.'])
    (by simp [IsUnrelativized])

/-- The first of several components is a run of more than two dots. -/
def OpensWithDots (input : Text) : Prop :=
  ∃ count rest, 2 < count ∧ input = List.replicate count '.' ++ '/' :: rest

def announced (input : Text) : Except PathError Text :=
  if input = [] then .error .empty
  else if ['/'] <+: input then .error (.absolute input)
  else if IsUnrelativized input then .error (.notRelativized input)
  else if ['.', '.'] ∈ pieces (· = '/') input then .error (.parentTraversal input)
  else .ok input

def DotsFirst (normal : Text) : Prop :=
  (pieces (· = '/') normal).headD [] ≠ ['.', '.'] ∧
    ∀ c ∈ (pieces (· = '/') normal).headD [], c = '.'

theorem head?_eq_slash_iff : normal.head? = some '/' ↔ ['/'] <+: normal := by
  cases normal with
  | nil => simp
  | cons c rest => simp [List.cons_prefix_cons, eq_comm]

theorem componentFault?_of_absolute (h : ['/'] <+: normal) :
    componentFault? input normal = some (.absolute input) :=
  if_pos (head?_eq_slash_iff.mpr h)

theorem componentFault?_of_dotsFirst (hroot : ¬ ['/'] <+: normal) (h : DotsFirst normal) :
    componentFault? input normal = some (.notRelativized input) := by
  have hslash := mt head?_eq_slash_iff.mp hroot
  have hdots : (pieces (· = '/') normal).headD [] ≠ ['.', '.'] ∧
      ((pieces (· = '/') normal).headD []).all (· = '.') = true := by
    simpa [DotsFirst] using h
  rw [componentFault?, if_neg hslash]
  exact if_pos hdots

theorem componentFault?_of_rest (hroot : ¬ ['/'] <+: normal) (h : ¬ DotsFirst normal) :
    componentFault? input normal =
      if ['.', '.'] ∈ pieces (· = '/') normal then some (.parentTraversal input) else none := by
  have hslash := mt head?_eq_slash_iff.mp hroot
  have hdots : ¬ ((pieces (· = '/') normal).headD [] ≠ ['.', '.'] ∧
      ((pieces (· = '/') normal).headD []).all (· = '.') = true) := by
    simpa [DotsFirst] using h
  have hclimbs : (pieces (· = '/') normal).any (· = ['.', '.']) = true ↔
      ['.', '.'] ∈ pieces (· = '/') normal := by
    simp
  rw [componentFault?, if_neg hslash]
  simp only [hclimbs]
  exact if_neg hdots

/-- What the strict policy asks of the components of a path. -/
theorem componentFault?_eq_none_iff : componentFault? input normal = none ↔
    ¬ ['/'] <+: normal ∧ ¬ DotsFirst normal ∧ ['.', '.'] ∉ pieces (· = '/') normal := by
  by_cases hroot : ['/'] <+: normal
  · simp [componentFault?_of_absolute hroot, hroot]
  by_cases hdots : DotsFirst normal
  · simp [componentFault?_of_dotsFirst hroot hdots, hdots]
  · simp [componentFault?_of_rest hroot hdots, hroot, hdots]

/-- The first component ends the path or is cut off by a separator. -/
theorem eq_or_exists_of_headD_pieces (input : Text) :
    ∃ first, (pieces (· = '/') input).headD [] = first ∧ '/' ∉ first ∧
      (input = first ∨ ∃ back, input = first ++ '/' :: back) := by
  obtain ⟨first, others, hpieces⟩ := List.exists_cons_of_ne_nil (pieces_ne_nil (· = '/') input)
  have hfirst : first ∈ pieces (· = '/') input := hpieces ▸ List.mem_cons_self
  refine ⟨first, by rw [hpieces]; rfl, ?_, ?_⟩
  · intro hslash
    simpa using isSeparator_of_mem_pieces hfirst hslash
  · rcases eq_or_exists_of_pieces_cons hpieces with ⟨hall, -⟩ | ⟨a, back, ha, hcut, -⟩
    · exact Or.inl hall
    · have hslash : a = '/' := by simpa using ha
      exact Or.inr ⟨back, hslash ▸ hcut⟩

/-- Of the paths whose first component consists of dots, those are not announced as unrelativized
that have more than one component and more than two dots in the first. -/
theorem dotsFirst_iff (hroot : ¬ ['/'] <+: input) :
    DotsFirst input ↔ IsUnrelativized input ∨ OpensWithDots input := by
  obtain ⟨first, hhead, hfirst, hcut⟩ := eq_or_exists_of_headD_pieces input
  rw [DotsFirst, hhead]
  rcases hcut with hall | ⟨back, hcut⟩
  · rw [← hall] at hfirst ⊢
    have hlong : ¬ ['.', '/'] <+: input := fun h => hfirst (h.subset (by simp))
    have hopens : ¬ OpensWithDots input := by
      intro ⟨count, rest, _, heq⟩
      exact hfirst (by rw [heq]; simp)
    simp only [IsUnrelativized, hlong, hopens, false_or, or_false, and_comm]
  · have hslash : '/' ∈ input := by rw [hcut]; simp
    have hpure : ¬ ∀ c ∈ input, c = '.' := fun h => absurd (h '/' hslash) (by decide)
    simp only [IsUnrelativized, hpure, false_and, or_false]
    constructor
    · intro ⟨htwo, hdots⟩
      have hrun : first = List.replicate first.length '.' := List.eq_replicate_of_mem hdots
      have hsome : first.length ≠ 0 := by
        intro hnil
        rw [List.length_eq_zero_iff.mp hnil, List.nil_append] at hcut
        exact hroot ⟨back, hcut.symm⟩
      have hother : first.length ≠ 2 := by
        intro hlength
        rw [hlength] at hrun
        exact htwo hrun
      rcases Nat.lt_or_ge first.length 2 with hone | hmore
      · have hlength : first.length = 1 := by omega
        rw [hlength] at hrun
        exact Or.inl ⟨back, by rw [hcut, hrun]; rfl⟩
      · exact Or.inr ⟨first.length, back, by omega, by rw [← hrun]; exact hcut⟩
    · intro h
      have hrun : ∃ count, count ≠ 2 ∧ first = List.replicate count '.' := by
        rcases h with ⟨rest, hdot⟩ | ⟨count, rest, hcount, hopens⟩
        · have hsame : ['.'] ++ '/' :: rest = first ++ '/' :: back := hdot.trans hcut
          exact ⟨1, by decide, ((append_cons_inj (by decide) hfirst).mp hsame).1.symm⟩
        · have hdots : '/' ∉ List.replicate count '.' := by simp
          exact ⟨count, by omega, ((append_cons_inj hfirst hdots).mp (hcut.symm.trans hopens)).1⟩
      obtain ⟨count, hcount, hrun⟩ := hrun
      rw [hrun]
      refine ⟨?_, fun c hc => List.eq_of_mem_replicate hc⟩
      intro htwo
      exact hcount (by simpa using congrArg List.length htwo)

theorem OpensWithDots.ne_nil_and_not_absolute (h : OpensWithDots input) :
    input ≠ [] ∧ ¬ ['/'] <+: input := by
  obtain ⟨count, rest, hcount, heq⟩ := h
  obtain ⟨more, hmore⟩ : ∃ more, count = more + 1 := ⟨count - 1, by omega⟩
  rw [heq, hmore, List.replicate_succ, List.cons_append]
  simp [List.cons_prefix_cons]

/-- A path without that opening is refused as announced, or not at all. -/
theorem announced_eq_of_componentFault? (hne : input ≠ []) (hopens : ¬ OpensWithDots input) :
    announced input =
      match componentFault? input input with
      | some error => .error error
      | none => .ok input := by
  rw [announced, if_neg hne]
  by_cases hroot : ['/'] <+: input
  · rw [if_pos hroot, componentFault?_of_absolute hroot]
  rw [if_neg hroot]
  by_cases hdots : DotsFirst input
  · have hannounced : IsUnrelativized input := ((dotsFirst_iff hroot).mp hdots).resolve_right hopens
    rw [if_pos hannounced, componentFault?_of_dotsFirst hroot hdots]
  · have hannounced : ¬ IsUnrelativized input := fun h =>
      hdots ((dotsFirst_iff hroot).mpr (Or.inl h))
    rw [if_neg hannounced, componentFault?_of_rest hroot hdots]
    split <;> rfl

theorem input?_of_announced {error : PathError} (h : announced input = .error error) :
    error = .empty ∨ error.input? = some input := by
  unfold announced at h
  split at h
  · exact Or.inl (Except.error.inj h).symm
  · right
    split_ifs at h <;> cases h <;> rfl

end Path

namespace RelativePath

variable {policy : PathPolicy} {input : Text}

theorem parse_eq_ok_iff {path : RelativePath} : parse policy input = .ok path ↔
    input ≠ [] ∧ Path.fault? policy input = none ∧
      path.text = Path.normalize policy.style input := by
  unfold parse
  split
  · next hnil => simp [hnil]
  · next hne =>
    cases path with
    | mk text hx =>
      cases Path.fault? policy input with
      | some error => simp
      | none => simp [hne, eq_comm]

theorem map_text_parse_strict_posix (hne : input ≠ []) :
    (parse (.strict .posix) input).map (·.text) =
      match Path.componentFault? input input with
      | some error => .error error
      | none => .ok input := by
  have hfault : Path.fault? (.strict .posix) input = Path.componentFault? input input := rfl
  rw [parse, dif_neg hne, hfault]
  cases Path.componentFault? input input <;> rfl

/-- The strict policy decides as its reasons announce, and whatever it refuses it reports as it was
given. The paths that open with more than two dots before a separator stand apart: none of them is
announced as unrelativized, and all of them are refused as that. -/
theorem parse_strict_posix (input : Text) :
    let outcome := (parse (.strict .posix) input).map (·.text)
    (¬ Path.OpensWithDots input → outcome = Path.announced input) ∧
      (Path.OpensWithDots input → outcome = .error (.notRelativized input)) ∧
      ∀ error, outcome = .error error → error = .empty ∨ error.input? = some input := by
  intro outcome
  have hannounced : ¬ Path.OpensWithDots input → outcome = Path.announced input := by
    intro hopens
    by_cases hnil : input = []
    · simp only [outcome]
      rw [parse, dif_pos hnil, Path.announced, if_pos hnil]
      rfl
    · rw [Path.announced_eq_of_componentFault? hnil hopens]
      exact map_text_parse_strict_posix hnil
  have hrefused : Path.OpensWithDots input → outcome = .error (.notRelativized input) := by
    intro hopens
    obtain ⟨hne, hroot⟩ := hopens.ne_nil_and_not_absolute
    have hdots : Path.DotsFirst input := (Path.dotsFirst_iff hroot).mpr (Or.inr hopens)
    have houtcome := map_text_parse_strict_posix hne
    rw [Path.componentFault?_of_dotsFirst hroot hdots] at houtcome
    exact houtcome
  refine ⟨hannounced, hrefused, ?_⟩
  intro error herror
  by_cases hopens : Path.OpensWithDots input
  · rw [hrefused hopens] at herror
    cases herror
    exact Or.inr rfl
  · rw [hannounced hopens] at herror
    exact Path.input?_of_announced herror

/-- A run of dots is a name like any other, unless it is the first one. -/
theorem parse_strict_posix_dots :
    (parse (.strict .posix) ['a', '/', '.', '.', '.']).map (·.text) =
        .ok ['a', '/', '.', '.', '.'] ∧
      (parse (.strict .posix) ['.', '.', '.', '/', 'a']).map (·.text) =
        .error (.notRelativized ['.', '.', '.', '/', 'a']) := by
  have hname : ¬ Path.OpensWithDots ['a', '/', '.', '.', '.'] := by
    intro ⟨count, rest, hcount, heq⟩
    obtain ⟨more, hmore⟩ : ∃ more, count = more + 1 := ⟨count - 1, by omega⟩
    rw [hmore, List.replicate_succ] at heq
    exact absurd (List.cons.inj heq).1 (by decide)
  have hannounced := (parse_strict_posix ['a', '/', '.', '.', '.']).1 hname
  have hopens : Path.OpensWithDots ['.', '.', '.', '/', 'a'] := ⟨3, ['a'], by decide, rfl⟩
  have hrefused := (parse_strict_posix ['.', '.', '.', '/', 'a']).2.1 hopens
  exact ⟨hannounced.trans rfl, hrefused⟩

/-- By what is announced, three dots before a separator name a directory like any other. -/
theorem announced_dots_directory :
    Path.announced ['.', '.', '.', '/', 'a'] = .ok ['.', '.', '.', '/', 'a'] ∧
      (parse (.strict .posix) ['.', '.', '.', '/', 'a']).map (·.text) =
        .error (.notRelativized ['.', '.', '.', '/', 'a']) :=
  ⟨rfl, rfl⟩

end RelativePath

end IgnoreRules
