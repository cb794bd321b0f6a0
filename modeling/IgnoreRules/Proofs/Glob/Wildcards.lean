import IgnoreRules.Proofs.Glob.Components
import Mathlib.Data.List.Forall2

/-! # Wildcards between separators

Without a `**`, each segment of a glob takes one component. This holds on any text and not only on
paths: a component may be empty, and a line break is a character like any other.
-/

namespace IgnoreRules

theorem count_slash_intercalate {names : List Text} (hne : names ≠ [])
    (hnames : ∀ name ∈ names, '/' ∉ name) :
    (['/'].intercalate names).count '/' + 1 = names.length := by
  induction names with
  | nil => exact absurd rfl hne
  | cons name names ih =>
    obtain ⟨hname, hrest⟩ := List.forall_mem_cons.mp hnames
    have hzero : name.count '/' = 0 := List.count_eq_zero_of_not_mem hname
    cases names with
    | nil => rw [List.intercalate_singleton, hzero, List.length_singleton]
    | cons next names =>
      have hcount := ih (List.cons_ne_nil next names) hrest
      rw [List.intercalate_cons_cons, List.count_append, List.count_append, hzero,
        List.count_singleton_self]
      simp only [List.length_cons] at hcount ⊢
      omega

namespace Segment

def Fills (case : CaseSensitivity) (segment : Segment) (name : Text) : Prop :=
  ∃ ts, segment = .tokens ts ∧ Token.Fill case ts name

variable {case : CaseSensitivity}

/-- Segments without a `**` take as many components as they are, one each. -/
theorem exists_names_of_matchText {segments : List Segment} (hne : segments ≠ [])
    (hplain : .globStar ∉ segments)
    (hslash : ∀ ts, .tokens ts ∈ segments → ∀ c, .literal c ∈ ts → c ≠ '/') {text : Text}
    (h : MatchText case segments text) :
    ∃ names, List.Forall₂ (Fills case) segments names ∧ (∀ name ∈ names, '/' ∉ name) ∧
      text = ['/'].intercalate names := by
  induction segments generalizing text with
  | nil => exact absurd rfl hne
  | cons segment rest ih =>
    cases segment with
    | globStar => exact absurd List.mem_cons_self hplain
    | tokens ts =>
      have hname : ∀ {name}, Token.Fill case ts name → '/' ∉ name := fun hfill =>
        Token.notMem_of_matchAll (hslash ts List.mem_cons_self) hfill.1
      by_cases hrest : rest = []
      · subst hrest
        rw [MatchText] at h
        refine ⟨[text], .cons ⟨ts, rfl, h⟩ .nil, ?_, List.intercalate_singleton.symm⟩
        exact List.forall_mem_singleton.mpr (hname h)
      · obtain ⟨name, back, rfl, hfill, hback⟩ := (matchText_tokens hrest).mp h
        obtain ⟨names, hfills, hnames, rfl⟩ := ih hrest
          (fun hmem => hplain (List.mem_cons_of_mem _ hmem))
          (fun ts hts => hslash ts (List.mem_cons_of_mem _ hts)) hback
        refine ⟨name :: names, .cons ⟨ts, rfl, hfill⟩ hfills,
          List.forall_mem_cons.mpr ⟨hname hfill, hnames⟩, ?_⟩
        have hmore : names ≠ [] := by
          rintro rfl
          exact hrest (List.forall₂_nil_right_iff.mp hfills)
        obtain ⟨next, others, rfl⟩ := List.exists_cons_of_ne_nil hmore
        rw [List.intercalate_cons_cons, List.append_assoc]
        rfl

end Segment

namespace Glob

theorem not_deep {glob : Glob} (hplain : .globStar ∉ glob.segments) :
    ¬ ∃ next rest, glob.segments = .globStar :: next :: rest := by
  rintro ⟨next, rest, hsegments⟩
  exact hplain (hsegments ▸ List.mem_cons_self)

/-- A glob without a `**` takes whole components up to the end of the text. -/
theorem exists_names_of_matches {case : CaseSensitivity} {glob : Glob}
    (hne : glob.segments ≠ []) (hplain : .globStar ∉ glob.segments)
    (hslash : ∀ ts, .tokens ts ∈ glob.segments → ∀ c, .literal c ∈ ts → c ≠ '/') {text : Text}
    (h : glob.Matches case text) :
    ∃ before names after, text = before ++ ['/'].intercalate names ++ after ∧ glob.Opens before ∧
      List.Forall₂ (Segment.Fills case) glob.segments names ∧ (∀ name ∈ names, '/' ∉ name) ∧
      (after = [] ∧ glob.directoryOnly = false ∨ after = ['/']) := by
  obtain ⟨before, middle, after, rfl, hopens, hmiddle, hcloses⟩ := h
  rw [core_eq_segments (not_deep hplain)] at hmiddle
  obtain ⟨names, hfills, hnames, rfl⟩ :=
    Segment.exists_names_of_matchText hne hplain hslash hmiddle
  have hlast : glob.segments.getLast? ≠ some .globStar :=
    fun hlast => hplain (List.mem_of_getLast? hlast)
  exact ⟨before, names, after, rfl, hopens, hfills, hnames,
    (Segment.closes_iff_of_getLast? hlast).mp hcloses⟩

end Glob

/-- No wildcard reaches across a separator, whatever the text looks like. A pattern without a `**`
that is anchored matches texts with as many components as it has segments. One that may stand at any
depth matches by the last component, and it takes all of that component. -/
theorem RegexMatcher.isMatch_within_components {engine : Engine} {key : MatcherKey}
    (hplain : .globStar ∉ (Glob.parse key.pattern).segments) {path : Text}
    (h : (compile key engine).isMatch path = true) :
    let glob := Glob.parse key.pattern
    (glob.anchored = true →
      path.count '/' + 1 = glob.segments.length ∨
        path.count '/' = glob.segments.length ∧ path.getLast? = some '/') ∧
    (glob.anchored = false → ∃ segment above name,
      glob.segments = [segment] ∧ segment.Fills key.case name ∧
        (above = [] ∨ above.getLast? = some '/') ∧ '/' ∉ name ∧
        (path = above ++ name ∨ path = above ++ name ++ ['/'])) ∧
    (glob.directoryOnly = true → path.getLast? = some '/') := by
  intro glob
  obtain ⟨-, hmatches⟩ := Glob.matches_of_isMatch h
  have hne : glob.segments ≠ [] := Glob.segments_parse_ne_nil key.pattern
  obtain ⟨before, names, after, rfl, hopens, hfills, hnames, hcloses⟩ :=
    Glob.exists_names_of_matches hne hplain
      (fun ts hts c hc => Glob.ne_slash_of_mem_tokens hts hc) hmatches
  refine ⟨?_, ?_, ?_⟩
  · intro hanchored
    have hfloats : ¬ glob.Floats := Glob.not_floats (Glob.not_deep hplain) hanchored
    obtain rfl : before = [] := hopens.resolve_right fun h => hfloats h.1
    have hlength : glob.segments.length = names.length := hfills.length_eq
    have hmore : names ≠ [] := by
      rintro rfl
      exact hne (List.forall₂_nil_right_iff.mp hfills)
    have hcount := count_slash_intercalate hmore hnames
    rw [hlength, ← hcount, List.nil_append]
    rcases hcloses with ⟨rfl, -⟩ | rfl
    · exact Or.inl (by rw [List.append_nil])
    · refine Or.inr ⟨?_, List.getLast?_concat⟩
      rw [List.count_append, List.count_singleton_self]
  · intro hfloating
    obtain ⟨ts, hsegments⟩ := Glob.exists_tokens_of_floating hfloating
    rw [hsegments] at hfills
    obtain ⟨name, others, hfill, hothers, rfl⟩ := List.forall₂_cons_left_iff.mp hfills
    obtain rfl := List.forall₂_nil_left_iff.mp hothers
    refine ⟨.tokens ts, before, name, hsegments, hfill, ?_, hnames name List.mem_cons_self, ?_⟩
    · refine hopens.imp_right ?_
      rintro ⟨-, front, rfl⟩
      exact List.getLast?_concat
    · rw [List.intercalate_singleton]
      rcases hcloses with ⟨rfl, -⟩ | rfl
      · exact Or.inl (List.append_nil _)
      · exact Or.inr rfl
  · intro hdirectory
    rcases hcloses with ⟨-, hfile⟩ | rfl
    · exact absurd (hdirectory.symm.trans hfile) (by decide)
    · exact List.getLast?_concat

/-- The star takes a line break, and the range from `+` to `0` takes `-` but not the `/` within it. -/
theorem RegexMatcher.isMatch_within_components_range :
    let body : Text := ['a', '*', '/', '[', '+', '-', '0', ']', '?', '/']
    let path : Text := ['A', '\n', '/', '-', 'b', '/']
    (compile ⟨body, false, .insensitive⟩ .bounded).isMatch path = true ∧
      (path.count '/' + 1 = 2 ∨ path.count '/' = 2 ∧ path.getLast? = some '/') ∧
      path.getLast? = some '/' := by
  intro body path
  have hparse : Glob.parse body = ⟨[.tokens [.literal 'a', .star],
      .tokens [.charClass ⟨false, [.range '+' '0']⟩, .anyChar]], true, true⟩ := by
    decide +kernel
  have hplain : .globStar ∉ (Glob.parse body).segments := by simp [hparse]
  have hmatch : (compile ⟨body, false, .insensitive⟩ .bounded).isMatch path = true := by
    decide +kernel
  have hwithin := @isMatch_within_components .bounded ⟨body, false, .insensitive⟩ hplain path hmatch
  simp only [hparse] at hwithin
  obtain ⟨hanchored, -, hdirectory⟩ := hwithin
  exact ⟨hmatch, hanchored trivial, hdirectory trivial⟩

end IgnoreRules
