import IgnoreRules.Proofs.Glob.Classes

/-! # Globs that match something

Unless a class of a glob has nothing to admit, a text that the glob matches can be written down from
its tokens: a character for each token, a single name for a `**` at the end and nothing for any
other.
-/

namespace IgnoreRules

variable {case : CaseSensitivity}

/-- A class that lists something admits the first character of what it lists. If it is negated, it
must leave out some character. -/
theorem CharClass.exists_admits {cls : CharClass} (hempty : cls.isEmpty = false)
    (hproper : ∀ m ∈ cls.members, m.IsProper)
    (hnegated : cls.negated = true → ∃ c, c ≠ '/' ∧ ¬ ClassMember.Lists case cls.members c) :
    ∃ c, cls.Admits case c := by
  cases hcase : cls.negated with
  | true =>
    obtain ⟨c, hc, hlists⟩ := hnegated hcase
    exact ⟨c, hc, by simp [hlists, hcase]⟩
  | false =>
    have hne : cls.members ≠ [] := by
      intro hnil
      rw [isEmpty, hcase, hnil] at hempty
      cases hempty
    obtain ⟨m, hm⟩ := List.exists_mem_of_ne_nil _ hne
    obtain ⟨c, hslash, hholds⟩ : ∃ c, c ≠ '/' ∧ m.Holds c := by
      have hm := hproper m hm
      cases m with
      | char c => exact ⟨c, hm, rfl⟩
      | range lo hi =>
        obtain ⟨hlo, -, horder⟩ := hm
        exact ⟨lo, hlo, Char.le_refl lo, horder⟩
    exact ⟨c, hslash, fun _ => hcase, fun _ => ⟨m, hm, c, CaseSensitivity.same_refl, hholds⟩⟩

/-- Tokens for each of which some character can stand take the text of these characters. -/
theorem Token.exists_fill {ts : List Token} (h : ∀ t ∈ ts, ∃ c, t.Admits case c) :
    ∃ text, Fill case ts text := by
  suffices ∃ text, MatchAll case ts text ∧ (ts ≠ [] → text ≠ []) by
    obtain ⟨text, hmatch, hne⟩ := this
    exact ⟨text, hmatch, fun hts => hne (hts ▸ List.cons_ne_nil _ _)⟩
  induction ts with
  | nil => exact ⟨[], by rw [MatchAll], fun hne => absurd rfl hne⟩
  | cons t ts ih =>
    obtain ⟨⟨c, hc⟩, hts⟩ := List.forall_mem_cons.mp h
    obtain ⟨text, hmatch, -⟩ := ih hts
    refine ⟨c :: text, ?_, fun _ => List.cons_ne_nil c text⟩
    by_cases hstar : t = .star
    · subst hstar
      exact matchAll_star.mpr ⟨[c], text, rfl, List.forall_mem_singleton.mpr hc, hmatch⟩
    · exact (matchAll_cons hstar).mpr ⟨[c], text, rfl, ⟨c, rfl, hc⟩, hmatch⟩

theorem Segment.exists_matchText {segments : List Segment}
    (h : ∀ ts, .tokens ts ∈ segments → ∃ text, Token.Fill case ts text) :
    ∃ text, MatchText case segments text := by
  -- `MatchText` tells the segments apart as their translation does.
  fun_induction regexes segments with
  | case1 => exact ⟨[], by rw [MatchText]⟩
  | case2 => exact ⟨['a'], List.cons_ne_nil _ _⟩
  | case3 rest hrest ih =>
    obtain ⟨text, htext⟩ := ih fun ts hts => h ts (List.mem_cons_of_mem _ hts)
    exact ⟨text, (matchText_globStar hrest).mpr ⟨[], text, rfl, by simp, htext⟩⟩
  | case4 ts =>
    obtain ⟨text, htext⟩ := h ts List.mem_cons_self
    exact ⟨text, by rwa [MatchText]⟩
  | case5 ts rest hrest ih =>
    obtain ⟨front, hfront⟩ := h ts List.mem_cons_self
    obtain ⟨back, hback⟩ := ih fun ts hts => h ts (List.mem_cons_of_mem _ hts)
    exact ⟨front ++ '/' :: back, (matchText_tokens hrest).mpr ⟨front, back, rfl, hfront, hback⟩⟩

namespace Glob

theorem exists_matches {glob : Glob} (h : ∀ cls, glob.HasClass cls → ∃ c, cls.Admits case c) :
    ∃ text, glob.Matches case text := by
  have hfill : ∀ ts, .tokens ts ∈ glob.core → ∃ text, Token.Fill case ts text := by
    intro ts hts
    refine Token.exists_fill fun t ht => ?_
    cases t with
    | literal c => exact ⟨c, CaseSensitivity.same_refl⟩
    | star | anyChar => exact ⟨'a', by simp [Token.Admits]⟩
    | charClass cls => exact h cls ⟨ts, mem_segments_of_mem_core hts, ht⟩
  obtain ⟨middle, hmiddle⟩ := Segment.exists_matchText hfill
  let after : Text := if glob.directoryOnly then ['/'] else []
  refine ⟨middle ++ after, [], middle, after, rfl, Or.inl rfl, hmiddle, ?_⟩
  cases hdirectory : glob.directoryOnly with
  | true => simp [after, hdirectory, Segment.Closes]
  | false => simp [after, hdirectory, Segment.Closes]

end Glob

/-- A pattern matches some text exactly if it is not impossible, and it is impossible exactly if its
body has a class with nothing to admit. Negated classes must leave some character to be admitted. -/
theorem RegexMatcher.canMatch_iff_exists_isMatch {engine : Engine} {key : MatcherKey}
    (haccepted : Accepted engine key)
    (hnegated : ∀ cls, (Glob.parse key.pattern).HasClass cls → cls.negated = true →
      ∃ c, c ≠ '/' ∧ ¬ ClassMember.Lists key.case cls.members c) :
    ((Glob.parse key.pattern).canMatch = true ↔
      ∃ path, (compile key engine).isMatch path = true) ∧
    (Lexeme.hasHollowClass key.pattern = true ↔
      ∀ path, (compile key engine).isMatch path = false) := by
  have hsome : (Glob.parse key.pattern).canMatch = true ↔
      ∃ path, (compile key engine).isMatch path = true := by
    constructor
    · intro hcan
      have hlisted := (Glob.canMatch_iff (Glob.segments_parse_ne_nil key.pattern)).mp hcan
      have hadmits : ∀ cls, (Glob.parse key.pattern).HasClass cls →
          ∃ c, cls.Admits key.case c := by
        intro cls hcls
        obtain ⟨ts, hts, hmem⟩ := hcls
        exact CharClass.exists_admits (hlisted ts hts cls hmem)
          (Glob.isProper_of_hasClass ⟨ts, hts, hmem⟩) (hnegated cls ⟨ts, hts, hmem⟩)
      obtain ⟨path, hpath⟩ := Glob.exists_matches hadmits
      exact ⟨path, (Glob.isMatch_ofGlob haccepted path).mpr ⟨hcan, hpath⟩⟩
    · rintro ⟨path, hpath⟩
      exact (Glob.matches_of_isMatch hpath).1
  refine ⟨hsome, ?_⟩
  calc Lexeme.hasHollowClass key.pattern = true
      ↔ ¬ (Glob.parse key.pattern).canMatch = true := by rw [Glob.canMatch_parse]; simp
    _ ↔ ∀ path, (compile key engine).isMatch path = false := by rw [hsome]; simp

/-- `[!a-z]` leaves `1` also when it ignores case, and `[+-0]` lists `+`. In the other pattern the
range is out of order. -/
theorem RegexMatcher.canMatch_iff_exists_isMatch_range :
    let body : Text := ['[', '!', 'a', '-', 'z', ']', '/', '*', '*', '/', '[', '+', '-', '0', ']']
    let other : Text := ['[', '!', 'a', '-', 'z', ']', '[', '0', '-', '+', ']']
    (∃ path, (compile ⟨body, false, .insensitive⟩ .bounded).isMatch path = true) ∧
      ∀ path, (compile ⟨other, false, .insensitive⟩ .bounded).isMatch path = false := by
  intro body other
  have hleaves : ∃ c, c ≠ '/' ∧ ¬ ClassMember.Lists .insensitive [.range 'a' 'z'] c := by
    have hadmits : CharClass.Admits .insensitive ⟨true, [.range 'a' 'z']⟩ '1' :=
      CharClass.accepts_iff.mp (by decide +kernel)
    exact ⟨'1', hadmits.1, fun hlists => absurd (hadmits.2.mp hlists) (by decide)⟩
  have hbody : Lexeme.ofBody body = [.token (.charClass ⟨true, [.range 'a' 'z']⟩), .slash, .stars 2,
      .slash, .token (.charClass ⟨false, [.range '+' '0']⟩)] := by
    decide +kernel
  have hother : Lexeme.ofBody other =
      [.token (.charClass ⟨true, [.range 'a' 'z']⟩), .token (.charClass ⟨false, []⟩)] := by
    decide +kernel
  constructor
  · refine (@canMatch_iff_exists_isMatch .bounded ⟨body, false, .insensitive⟩ (by decide +kernel)
      ?_).1.mp (by decide +kernel)
    intro cls hcls hnegated
    rw [Glob.hasClass_parse_iff, hbody] at hcls
    obtain rfl | rfl : cls = _ ∨ cls = _ := by simpa using hcls
    · exact hleaves
    · cases hnegated
  · refine (@canMatch_iff_exists_isMatch .bounded ⟨other, false, .insensitive⟩ (by decide +kernel)
      ?_).2.mp (by decide +kernel)
    intro cls hcls hnegated
    rw [Glob.hasClass_parse_iff, hother] at hcls
    obtain rfl | rfl : cls = _ ∨ cls = _ := by simpa using hcls
    · exact hleaves
    · cases hnegated

end IgnoreRules
