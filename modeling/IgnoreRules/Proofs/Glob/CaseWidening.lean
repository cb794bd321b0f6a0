import IgnoreRules.Proofs.Glob.Classes

/-! # Ignoring case widens a glob

What each token admits decides what a glob matches, and more admitted characters never mean fewer
matches. Characters that are equal stay equal when case is ignored, so only a negated class can lose
some.
-/

namespace IgnoreRules

variable {case case' : CaseSensitivity}

namespace Token

def Widens (case case' : CaseSensitivity) (ts : List Token) : Prop :=
  ∀ t ∈ ts, ∀ c, t.Admits case c → t.Admits case' c

theorem MatchAll.mono {ts : List Token} {text : Text} (h : MatchAll case ts text)
    (hwidens : Widens case case' ts) : MatchAll case' ts text := by
  induction ts generalizing text with
  | nil =>
    rw [MatchAll] at h ⊢
    exact h
  | cons t ts ih =>
    obtain ⟨ht, hts⟩ := List.forall_mem_cons.mp hwidens
    by_cases hstar : t = .star
    · subst hstar
      obtain ⟨front, back, heq, hfront, hback⟩ := matchAll_star.mp h
      exact matchAll_star.mpr ⟨front, back, heq, hfront, ih hback hts⟩
    · obtain ⟨front, back, heq, ⟨c, hfront, hc⟩, hback⟩ := (matchAll_cons hstar).mp h
      exact (matchAll_cons hstar).mpr ⟨front, back, heq, ⟨c, hfront, ht c hc⟩, ih hback hts⟩

theorem Fill.mono {ts : List Token} {text : Text} (h : Fill case ts text)
    (hwidens : Widens case case' ts) : Fill case' ts text :=
  ⟨h.1.mono hwidens, h.2⟩

end Token

theorem Segment.MatchText.mono {segments : List Segment} {text : Text}
    (h : MatchText case segments text)
    (hwidens : ∀ ts, .tokens ts ∈ segments → Token.Widens case case' ts) :
    MatchText case' segments text := by
  fun_induction regexes segments generalizing text with
  | case1 =>
    rw [MatchText] at h ⊢
    exact h
  | case2 => exact h
  | case3 rest hrest ih =>
    obtain ⟨names, back, heq, hnames, hback⟩ := (matchText_globStar hrest).mp h
    have hback' := ih hback fun ts hts => hwidens ts (List.mem_cons_of_mem _ hts)
    exact (matchText_globStar hrest).mpr ⟨names, back, heq, hnames, hback'⟩
  | case4 ts =>
    rw [MatchText] at h ⊢
    exact h.mono (hwidens ts List.mem_cons_self)
  | case5 ts rest hrest ih =>
    obtain ⟨front, back, heq, hfront, hback⟩ := (matchText_tokens hrest).mp h
    have hfront' := hfront.mono (hwidens ts List.mem_cons_self)
    have hback' := ih hback fun ts hts => hwidens ts (List.mem_cons_of_mem _ hts)
    exact (matchText_tokens hrest).mpr ⟨front, back, heq, hfront', hback'⟩

theorem Glob.Matches.mono {glob : Glob} {text : Text} (h : glob.Matches case text)
    (hwidens : ∀ ts, .tokens ts ∈ glob.segments → Token.Widens case case' ts) :
    glob.Matches case' text := by
  obtain ⟨before, middle, after, heq, hopens, hmiddle, hcloses⟩ := h
  exact ⟨before, middle, after, heq, hopens,
    hmiddle.mono fun ts hts => hwidens ts (mem_segments_of_mem_core hts), hcloses⟩

theorem CaseSensitivity.same_insensitive {c d : Char} (h : CaseSensitivity.sensitive.Same c d) :
    CaseSensitivity.insensitive.Same c d := by
  obtain rfl : c = d := h
  exact same_refl

/-- A class that is not negated admits what it lists, and ignoring case lists more. -/
theorem CharClass.admits_insensitive {cls : CharClass} (hpositive : cls.negated = false) {c : Char}
    (h : cls.Admits .sensitive c) : cls.Admits .insensitive c := by
  obtain ⟨hslash, hlists⟩ := h
  obtain ⟨m, hm, d, hsame, hholds⟩ := hlists.mpr hpositive
  exact ⟨hslash, fun _ => hpositive,
    fun _ => ⟨m, hm, d, CaseSensitivity.same_insensitive hsame, hholds⟩⟩

theorem Token.widens_of_positive {ts : List Token}
    (h : ∀ cls, .charClass cls ∈ ts → cls.negated = false) :
    Widens .sensitive .insensitive ts := by
  intro t ht c hc
  cases t with
  | literal a => exact CaseSensitivity.same_insensitive hc
  | star | anyChar => exact hc
  | charClass cls => exact CharClass.admits_insensitive (h cls ht) hc

/-- A pattern without a negated class matches, when it ignores case, whatever else it matches. -/
theorem RegexMatcher.isMatch_insensitive {engine : Engine} {pattern : Text} {negative : Bool}
    (hpositive : ∀ cls, (Glob.parse pattern).HasClass cls → cls.negated = false)
    (haccepted : Accepted engine ⟨pattern, negative, .insensitive⟩) {path : Text}
    (h : (compile ⟨pattern, negative, .sensitive⟩ engine).isMatch path = true) :
    (compile ⟨pattern, negative, .insensitive⟩ engine).isMatch path = true := by
  obtain ⟨hcan, hmatches⟩ := Glob.matches_of_isMatch h
  refine (Glob.isMatch_ofGlob haccepted path).mpr ⟨hcan, hmatches.mono ?_⟩
  intro ts hts
  exact Token.widens_of_positive fun cls hcls => hpositive cls ⟨ts, hts, hcls⟩

/-- The range `[A-Z]` takes `S` in both modes, and a long s counts as itself. -/
theorem RegexMatcher.isMatch_insensitive_range :
    let pattern : Text := ['*', '*', '/', '[', 'A', '-', 'Z', ']', '\u017f', '/', '*']
    let path : Text := ['x', '/', 'S', '\u017f', '/', 'b']
    (compile ⟨pattern, false, .sensitive⟩ .bounded).isMatch path = true ∧
      (compile ⟨pattern, false, .insensitive⟩ .bounded).isMatch path = true := by
  intro pattern path
  have hbody : Lexeme.ofBody pattern =
      [.stars 2, .slash, .token (.charClass ⟨false, [.range 'A' 'Z']⟩),
        .token (.literal '\u017f'), .slash, .stars 1] := by
    decide +kernel
  have hpositive : ∀ cls, (Glob.parse pattern).HasClass cls → cls.negated = false := by
    intro cls hcls
    rw [Glob.hasClass_parse_iff, hbody] at hcls
    obtain rfl : cls = ⟨false, [.range 'A' 'Z']⟩ := by simpa using hcls
    rfl
  have haccepted : Accepted .bounded ⟨pattern, false, .insensitive⟩ := by decide +kernel
  have hmatch : (compile ⟨pattern, false, .sensitive⟩ .bounded).isMatch path = true := by
    decide +kernel
  exact ⟨hmatch, isMatch_insensitive hpositive haccepted hmatch⟩

/-- A negated class loses the other case of what it lists. -/
example :
    let pattern : Text := ['[', '!', 'a', ']']
    (RegexMatcher.compile ⟨pattern, false, .sensitive⟩ .bounded).isMatch ['A'] = true ∧
      (RegexMatcher.compile ⟨pattern, false, .insensitive⟩ .bounded).isMatch ['A'] = false := by
  decide +kernel

end IgnoreRules
