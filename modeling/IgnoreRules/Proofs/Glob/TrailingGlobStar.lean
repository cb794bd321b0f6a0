import IgnoreRules.Proofs.Glob.Boundaries
import IgnoreRules.Proofs.Glob.Components

/-! # A `**` at the end

Behind any body that is not empty, `/**` matches what lies strictly below the directories that the
body names. The root alone is no such body: `/**` is a lone `**` once its separator is gone, and so
it reaches no further than the first component.
-/

namespace IgnoreRules

namespace Lexeme

/-- The body is read to its end: no class is open there, and no backslash stands there alone. -/
def isComplete : Text → Bool
  | [] => true
  | '\\' :: [] => false
  | '\\' :: _ :: rest => isComplete rest
  | '[' :: rest =>
    match _scan : ClassScan.ofText (CharClass.splitNegation rest).2 with
    | .closed _ after => isComplete after
    | .unterminated => false
    | .interrupted => isComplete rest
  | _ :: rest => isComplete rest
termination_by body => body.length
decreasing_by
  any_goals (simp only [List.length_cons]; omega)
  have closed := ClassScan.length_rest_lt _scan
  have split := CharClass.length_splitNegation_le rest
  simp only [List.length_cons]
  omega

/-- A separator behind a complete body changes nothing in how the body is read. -/
theorem readsAs_of_isComplete {body : Text} (h : isComplete body = true) :
    ReadsAs body (ofBody body) := by
  fun_induction isComplete body with
  | case1 =>
    rw [ofBody]
    exact readsAs_nil
  | case2 | case5 => cases h
  | case3 c rest ih =>
    by_cases hslash : c = '/'
    · subst hslash
      rw [ofBody]
      exact (ih h).escapedSlash
    · rw [ofBody_escaped hslash]
      exact (ih h).escaped hslash
  | case4 rest items after hscan ih =>
    rw [ofBody_bracket, hscan]
    exact (ih h).closed hscan
  | case6 rest hscan ih =>
    rw [ofBody_bracket, hscan]
    exact (ih h).bracket fun items after => by simp [hscan]
  | case7 c rest hlone hpair hbracket ih =>
    have hrest := ih h
    by_cases hslash : c = '/'
    · subst hslash
      rw [ofBody]
      exact hrest.slash
    by_cases hstar : c = '*'
    · subst hstar
      rw [ofBody]
      exact hrest.star
    by_cases hany : c = '?'
    · subst hany
      rw [ofBody]
      exact hrest.anyChar
    have hescape := ne_escape_of_forall hlone hpair
    rw [ofBody_literal hescape hslash hstar hany hbracket]
    exact hrest.literal hescape hslash hstar hany hbracket

theorem ofBody_trailing_globStar {front : Text} (h : isComplete front = true) :
    ofBody (front ++ ['/', '*', '*']) = ofBody front ++ [.slash, .stars 2] := by
  have hstars : ofBody ['*', '*'] = [.stars 2] := by
    rw [ofBody, ofBody, ofBody]
    rfl
  rw [readsAs_of_isComplete h, hstars]

end Lexeme

theorem CharClass.isEmpty_of_admits {case : CaseSensitivity} {cls : CharClass} {c : Char}
    (h : cls.Admits case c) : cls.isEmpty = false := by
  by_contra hempty
  rw [Bool.not_eq_false, isEmpty, Bool.and_eq_true, Bool.not_eq_true', List.isEmpty_iff] at hempty
  obtain ⟨m, hm, -⟩ := h.2.mpr hempty.1
  rw [hempty.2] at hm
  cases hm

theorem Token.isEmpty_of_matchAll {case : CaseSensitivity} {ts : List Token} {text : Text}
    (h : MatchAll case ts text) {cls : CharClass} (hcls : .charClass cls ∈ ts) :
    cls.isEmpty = false := by
  fun_induction MatchAll case ts text with
  | case1 => cases hcls
  | case2 ts ih =>
    exact ih h (List.mem_of_ne_of_mem Token.noConfusion hcls)
  | case3 ts c text ih ih' =>
    rcases h with h | ⟨-, h⟩
    · exact ih h (List.mem_of_ne_of_mem Token.noConfusion hcls)
    · exact ih' h hcls
  | case4 => cases h
  | case5 t ts c text _ ih =>
    rcases List.mem_cons.mp hcls with heq | hrest
    · rw [← heq] at h
      exact CharClass.isEmpty_of_admits h.1
    · exact ih h.2 hrest

namespace Segment

/-- The segments of a body that is anchored at the root, whether it begins with a separator or not.
The empty body has none. -/
def rooted (body : Text) : List Segment :=
  if body = [] then []
  else
    let lexemes := Lexeme.ofBody body
    let lexemes := if lexemes.head? = some .slash then lexemes.tail else lexemes
    (pieces (· = .slash) lexemes).map ofLexemes

/-- The segments take all the names: a `**` any number of them, and any other segment one. -/
def Cover (case : CaseSensitivity) : List Segment → List Text → Prop
  | [], names => names = []
  | .globStar :: rest, names => ∃ above below, names = above ++ below ∧ Cover case rest below
  | .tokens ts :: rest, names =>
    ∃ name below, names = name :: below ∧ Token.MatchAll case ts name ∧ Cover case rest below

/-- A `**` behind other segments takes what they leave, which must be something. -/
theorem matchNames_concat_globStar {case : CaseSensitivity} {segments : List Segment}
    {names : List Text} :
    MatchNames case (segments ++ [.globStar]) names ↔
      ∃ above below, names = above ++ below ∧ below ≠ [] ∧ Cover case segments above := by
  induction segments generalizing names with
  | nil =>
    rw [List.nil_append, MatchNames]
    constructor
    · exact fun h => ⟨[], names, rfl, h, rfl⟩
    · rintro ⟨_, below, rfl, h, rfl⟩
      exact h
  | cons segment rest ih =>
    cases segment with
    | globStar =>
      rw [List.cons_append, matchNames_globStar (by simp)]
      constructor
      · rintro ⟨dirs, suffix, rfl, h⟩
        obtain ⟨above, below, rfl, hbelow, hcover⟩ := ih.mp h
        exact ⟨dirs ++ above, below, (List.append_assoc ..).symm, hbelow, dirs, above, rfl, hcover⟩
      · rintro ⟨_, below, rfl, hbelow, dirs, above, rfl, hcover⟩
        have hrest := ih.mpr ⟨above, below, rfl, hbelow, hcover⟩
        exact ⟨dirs, above ++ below, List.append_assoc .., hrest⟩
    | tokens ts =>
      rw [List.cons_append, matchNames_tokens]
      constructor
      · rintro ⟨name, others, rfl, hname, h⟩
        obtain ⟨above, below, rfl, hbelow, hcover⟩ := ih.mp h
        exact ⟨name :: above, below, rfl, hbelow, name, above, rfl, hname, hcover⟩
      · rintro ⟨_, below, rfl, hbelow, name, above, rfl, hname, hcover⟩
        exact ⟨name, above ++ below, rfl, hname, ih.mpr ⟨above, below, rfl, hbelow, hcover⟩⟩

/-- Nothing is covered by segments in which some class can never admit a character. -/
theorem Cover.classes_listed {case : CaseSensitivity} {segments : List Segment} {names : List Text}
    (h : Cover case segments names) :
    ∀ ts, .tokens ts ∈ segments → ∀ cls, .charClass cls ∈ ts → cls.isEmpty = false := by
  induction segments generalizing names with
  | nil => simp
  | cons segment rest ih =>
    intro ts hts cls hcls
    cases segment with
    | globStar =>
      obtain ⟨above, below, rfl, hbelow⟩ := h
      exact ih hbelow ts (List.mem_of_ne_of_mem Segment.noConfusion hts) cls hcls
    | tokens ts' =>
      obtain ⟨name, below, rfl, hname, hbelow⟩ := h
      rcases List.mem_cons.mp hts with heq | hrest
      · obtain rfl := Segment.tokens.inj heq
        exact Token.isEmpty_of_matchAll hname hcls
      · exact ih hbelow ts hrest cls hcls

end Segment

namespace Glob

theorem ofLexemes_trailing_globStar {lexemes : List Lexeme} (hne : lexemes ≠ []) :
    ofLexemes (lexemes ++ [.slash, .stars 2]) =
      ⟨(pieces (· = .slash) (if lexemes.head? = some .slash then lexemes.tail else lexemes)).map
        Segment.ofLexemes ++ [.globStar], true, false⟩ := by
  have hhead : (lexemes ++ [Lexeme.slash, .stars 2]).head? = lexemes.head? :=
    List.head?_append_of_ne_nil _ hne
  have htail : (lexemes ++ [Lexeme.slash, .stars 2]).tail = lexemes.tail ++ [.slash, .stars 2] :=
    List.tail_append_of_ne_nil hne
  have hsegments : ∀ inner : List Lexeme,
      (pieces (· = .slash) (inner ++ [.slash, .stars 2])).map Segment.ofLexemes =
        (pieces (· = .slash) inner).map Segment.ofLexemes ++ [.globStar] := by
    intro inner
    have hsplit : pieces (· = .slash) (inner ++ .slash :: [.stars 2]) =
        pieces (· = .slash) inner ++ pieces (· = .slash) [.stars 2] :=
      pieces_append_cons (by decide) _ _
    rw [hsplit, List.map_append]
    rfl
  have hseveral : ∀ inner : List Lexeme,
      (pieces (· = .slash) inner).map Segment.ofLexemes ++ [.globStar] ≠ [.globStar] := by
    intro inner
    simp [pieces_ne_nil]
  by_cases hroot : lexemes.head? = some .slash
  · simp [ofLexemes, hhead, htail, hroot, hsegments, hseveral]
  · simp [ofLexemes, hhead, hroot, hsegments, hseveral, length_pieces]

theorem parse_trailing_globStar {front : Text} (hne : front ≠ [])
    (h : Lexeme.isComplete front = true) :
    parse (front ++ ['/', '*', '*']) = ⟨Segment.rooted front ++ [.globStar], true, false⟩ := by
  rw [parse, Lexeme.ofBody_trailing_globStar h,
    ofLexemes_trailing_globStar (Lexeme.ofBody_ne_nil hne), Segment.rooted, if_neg hne]

theorem parse_root_globStar : parse ['/', '*', '*'] = ⟨[.tokens [.star]], true, false⟩ := by
  decide +kernel

end Glob

namespace RegexMatcher

variable {engine : Engine} {key : MatcherKey} {names : List Text}

theorem isMatch_iff_of_anchored (haccepted : Accepted engine key) (hpattern : key.pattern ≠ [])
    {segments : List Segment} (hparse : Glob.parse key.pattern = ⟨segments, true, false⟩)
    (hne : names ≠ []) (hnames : ∀ name ∈ names, IsName name) (directory : Bool) :
    (compile key engine).isMatch
        (['/'].intercalate names ++ if directory then ['/'] else []) = true ↔
      (Glob.parse key.pattern).ClassesListed ∧ Segment.MatchNames key.case segments names := by
  rw [← joinNames_eq_intercalate hne, compile, Glob.isMatch_ofGlob haccepted,
    Glob.matches_joinNames_iff (Glob.isParsed_parse hpattern) hnames]
  constructor
  · intro h
    have hanchored := h.anchored (by rw [hparse])
    rw [hparse] at hanchored
    exact ⟨h.classes, hanchored⟩
  · rintro ⟨hclasses, hmatch⟩
    rw [hparse] at hclasses ⊢
    exact ⟨hclasses, Bool.noConfusion, Bool.noConfusion, fun _ => hmatch⟩

theorem isMatch_trailing_iff {front : Text} {negative : Bool} {case : CaseSensitivity}
    (haccepted : Accepted engine ⟨front ++ ['/', '*', '*'], negative, case⟩) (hfront : front ≠ [])
    (hcomplete : Lexeme.isComplete front = true) (hne : names ≠ [])
    (hnames : ∀ name ∈ names, IsName name) (directory : Bool) :
    (compile ⟨front ++ ['/', '*', '*'], negative, case⟩ engine).isMatch
        (['/'].intercalate names ++ if directory then ['/'] else []) = true ↔
      ∃ above below, names = above ++ below ∧ below ≠ [] ∧
        Segment.Cover case (Segment.rooted front) above := by
  have hparse := Glob.parse_trailing_globStar hfront hcomplete
  rw [isMatch_iff_of_anchored haccepted (by simp) hparse hne hnames directory, 
    Segment.matchNames_concat_globStar, hparse]
  constructor
  · exact And.right
  · intro h
    refine ⟨?_, h⟩
    obtain ⟨above, below, -, -, hcover⟩ := h
    intro ts hts
    have hfrontSegment : .tokens ts ∈ Segment.rooted front := by simpa using hts
    exact hcover.classes_listed ts hfrontSegment

/-- Behind nothing at all, the separator and the `**` match what stands directly below the root. -/
theorem isMatch_root_iff {negative : Bool} {case : CaseSensitivity}
    (haccepted : Accepted engine ⟨['/', '*', '*'], negative, case⟩) (hne : names ≠ [])
    (hnames : ∀ name ∈ names, IsName name) (directory : Bool) :
    (compile ⟨['/', '*', '*'], negative, case⟩ engine).isMatch
        (['/'].intercalate names ++ if directory then ['/'] else []) = true ↔
      names.length = 1 := by
  rw [isMatch_iff_of_anchored haccepted (by simp) Glob.parse_root_globStar hne hnames directory,
    Glob.parse_root_globStar, Segment.matchNames_tokens]
  constructor
  · rintro ⟨-, name, others, rfl, -, hothers⟩
    rw [Segment.MatchNames] at hothers
    rw [hothers]
    rfl
  · intro hlength
    obtain ⟨name, rfl⟩ := List.length_eq_one_iff.mp hlength
    have hname : IsName name := hnames name (List.mem_singleton_self name)
    have hstar : Token.MatchAll case [.star] name := by
      refine Token.matchAll_star.mpr ⟨name, [], (List.append_nil name).symm, ?_, ?_⟩
      · exact fun c hc heq => hname.2 (heq ▸ hc)
      · rw [Token.MatchAll]
    refine ⟨?_, name, [], rfl, hstar, ?_⟩
    · simp [Glob.ClassesListed]
    · rw [Segment.MatchNames]

/-- A `**` that a separator cuts off at the end of a body matches what lies strictly below the
directories that the rest of the body names. If the rest is itself a `**`, that is everything, but
if it is empty, only the first level below the root is left. -/
theorem isMatch_trailing_globStar (engine : Engine) (negative : Bool) (case : CaseSensitivity)
    {names : List Text} (hne : names ≠ []) (hnames : ∀ name ∈ names, IsName name)
    (directory : Bool) :
    let path := ['/'].intercalate names ++ if directory then ['/'] else []
    let key : Text → MatcherKey := fun front => ⟨front ++ ['/', '*', '*'], negative, case⟩
    (∀ front, front ≠ [] → Lexeme.isComplete front = true → Accepted engine (key front) →
      ((compile (key front) engine).isMatch path = true ↔
        ∃ above below, names = above ++ below ∧ below ≠ [] ∧
          Segment.Cover case (Segment.rooted front) above)) ∧
    (∀ front ∈ [['*', '*'], ['/', '*', '*']], Accepted engine (key front) →
      (compile (key front) engine).isMatch path = true) ∧
    (Accepted engine (key []) →
      ((compile (key []) engine).isMatch path = true ↔ names.length = 1)) := by
  intro path key
  refine ⟨?_, ?_, ?_⟩
  · intro front hfront hcomplete haccepted
    exact isMatch_trailing_iff haccepted hfront hcomplete hne hnames directory
  · intro front hfront haccepted
    have hrooted : front ≠ [] ∧ Lexeme.isComplete front = true ∧
        Segment.rooted front = [.globStar] := by
      rcases List.mem_pair.mp hfront with rfl | rfl <;> decide +kernel
    obtain ⟨hfront, hcomplete, hrooted⟩ := hrooted
    rw [isMatch_trailing_iff haccepted hfront hcomplete hne hnames directory, hrooted]
    exact ⟨[], names, rfl, hne, [], [], rfl, rfl⟩
  · intro haccepted
    exact isMatch_root_iff haccepted hne hnames directory

/-- Below any directory of `a` there is something in `a/x/b/`, once for `a` and once for `a/x`. -/
theorem isMatch_trailing_globStar_repeated :
    (compile ⟨['a', '/', '*', '*', '/', '*', '*'], false, .insensitive⟩ .bounded).isMatch
      ['a', '/', 'x', '/', 'b', '/'] = true := by
  have hnames : ∀ name ∈ [['a'], ['x'], ['b']], IsName name := by simp [IsName]
  have hrooted : Segment.rooted ['a', '/', '*', '*'] = [.tokens [.literal 'a'], .globStar] := by
    decide +kernel
  have hparse : Glob.parse ['a', '/', '*', '*', '/', '*', '*'] =
      ⟨[.tokens [.literal 'a'], .globStar, .globStar], true, false⟩ := by
    decide +kernel
  have haccepted : Accepted .bounded
      ⟨['a', '/', '*', '*', '/', '*', '*'], false, .insensitive⟩ := by
    intro r hr
    rw [hparse] at hr
    cases hr
    decide
  have hname : Token.MatchAll .insensitive [.literal 'a'] ['a'] := by
    simp [Token.MatchAll, Token.Admits, CaseSensitivity.Same]
  refine ((isMatch_trailing_globStar .bounded false .insensitive (List.cons_ne_nil _ _) hnames
    true).1 ['a', '/', '*', '*'] (by decide) (by decide +kernel) haccepted).mpr ?_
  rw [hrooted]
  exact ⟨[['a'], ['x']], [['b']], rfl, by decide, ['a'], [['x']], rfl, hname, [['x']], [], rfl, rfl⟩

/-- `/**` leaves out `a/b`, which both `**/**` and `/**/**` match. -/
theorem isMatch_root_globStar_nested :
    (compile ⟨['/', '*', '*'], false, .insensitive⟩ .bounded).isMatch ['a', '/', 'b'] = false ∧
      (compile ⟨['*', '*', '/', '*', '*'], false, .insensitive⟩ .bounded).isMatch
        ['a', '/', 'b'] = true ∧
      (compile ⟨['/', '*', '*', '/', '*', '*'], false, .insensitive⟩ .bounded).isMatch
        ['a', '/', 'b'] = true := by
  decide +kernel

end RegexMatcher

end IgnoreRules
