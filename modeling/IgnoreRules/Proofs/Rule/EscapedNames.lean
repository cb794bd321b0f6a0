import IgnoreRules.Proofs.Glob.TrailingGlobStar
import IgnoreRules.Proofs.Pattern.Meaning
import IgnoreRules.Rule

/-! # Names written with escapes

A line that escapes each character of a name is the pattern of that name, wherever it stands. A
blank at the end of the name is the exception: whichever it is, the line keeps one space for it.
-/

namespace IgnoreRules

namespace Pattern

open Text

/-- An escaped blank is trimmed away, and its backslash asks for a space in its place. -/
theorem trimBody_escape {name : Text} (hne : name ≠ []) :
    trimBody (escape name) = escape (spaceAtEnd name) := by
  obtain ⟨front, last, hlast⟩ := (List.eq_nil_or_concat name).resolve_left hne
  rw [List.concat_eq_append] at hlast
  have hpair : ∀ c, escape (front ++ [c]) = (escape front ++ ['\\']) ++ [c] := by
    intro c
    rw [escape_concat, List.append_assoc]
    rfl
  rw [hlast, spaceAtEnd_concat, hpair, hpair]
  cases hblank : isBlank last with
  | true =>
    have hkept : IsTrimmed (escape front ++ ['\\']) := isTrimmed_concat_iff.mpr isBlank_backslash
    have hescape : endsInEscape (escape front ++ ['\\']) = true := by
      rw [endsInEscape_concat_backslash, endsInEscape_escape]
      rfl
    rw [trimBody_append hkept (by simpa using hblank)]
    exact if_pos ⟨List.cons_ne_nil last [], hescape⟩
  | false => exact trimBody_eq_self (isTrimmed_concat_iff.mpr hblank)

theorem isIdle_escape {name : Text} (hne : name ≠ []) : isIdle (escape name) = false := by
  obtain ⟨c, rest, hname⟩ := List.exists_cons_of_ne_nil hne
  have hend := endsInEscape_escape name
  rw [hname, escape_cons] at hend ⊢
  simp [isIdle, hend, isBlank_backslash]

theorem dropMarkerEscape_escape_ne_nil {text : Text} (hne : text ≠ []) :
    dropMarkerEscape (escape text) ≠ [] := by
  obtain ⟨c, rest, htext⟩ := List.exists_cons_of_ne_nil hne
  rw [htext, escape_cons]
  exact mt dropMarkerEscape_eq_nil_iff.mp (List.cons_ne_nil '\\' _)

/-- A line of escapes is neither idle nor negative, whatever the name begins with. -/
theorem ofLine?_escape {name : Text} (hne : name ≠ []) :
    ofLine? (escape name) =
      some ⟨escape name, dropMarkerEscape (escape (spaceAtEnd name)), false⟩ := by
  obtain ⟨c, rest, hname⟩ := List.exists_cons_of_ne_nil hne
  have hmark : dropMark (escape name) = escape name := by
    rw [hname]
    rfl
  have hpositive : splitNegation (escape name) = (false, escape name) := by
    rw [hname]
    rfl
  have hbody : (dropMarkerEscape (escape (spaceAtEnd name))).isEmpty = false :=
    List.isEmpty_eq_false_iff.mpr (dropMarkerEscape_escape_ne_nil (spaceAtEnd_ne_nil hne))
  simp only [ofLine?, hmark, isIdle_escape hne, hpositive, trimBody_escape hne, hbody,
    Bool.false_eq_true, if_false]

end Pattern

namespace Lexeme

/-- Escaped characters are read as themselves. -/
theorem ofBody_escape {text : Text} (h : '/' ∉ text) :
    ofBody (Text.escape text) = text.map fun c => .token (.literal c) := by
  induction text with
  | nil =>
    rw [Text.escape, List.flatMap_nil, ofBody]
    rfl
  | cons c text ih =>
    obtain ⟨hc, htext⟩ : '/' ≠ c ∧ '/' ∉ text := by simpa using h
    rw [Text.escape_cons, ofBody_escaped (Ne.symm hc), ih htext, List.map_cons]

end Lexeme

namespace Glob

/-- Literals without a separator between them are one segment, which may stand at any depth. -/
theorem ofLexemes_literals (text : Text) :
    ofLexemes (text.map fun c => .token (.literal c)) =
      ⟨[.tokens (text.map .literal)], false, false⟩ := by
  let lexemes : List Lexeme := text.map fun c => .token (.literal c)
  have hslash : ∀ l ∈ lexemes, l ≠ .slash := by
    intro l hl
    obtain ⟨c, -, hc⟩ := List.mem_map.mp hl
    rw [← hc]
    exact Lexeme.noConfusion
  have hlast : lexemes.getLast? ≠ some .slash := fun h => hslash _ (List.mem_of_getLast? h) rfl
  have hhead : lexemes.head? ≠ some .slash := fun h => hslash _ (List.mem_of_head? h) rfl
  have hpieces : pieces (· = .slash) lexemes = [lexemes] :=
    pieces_eq_singleton fun l hl => decide_eq_false (hslash l hl)
  have hsegment : Segment.ofLexemes lexemes = .tokens (text.map .literal) := by
    have hstars : lexemes ≠ [.stars 2] := by
      cases text with
      | nil => simp [lexemes]
      | cons c text => simp [lexemes]
    rw [Segment.ofLexemes, if_neg hstars]
    simp [lexemes, List.filterMap_map]
  change ofLexemes lexemes = _
  simp [ofLexemes, hlast, hhead, hpieces, hsegment]

theorem parse_escape {text : Text} (h : '/' ∉ text) :
    parse (Pattern.dropMarkerEscape (Text.escape text)) =
      ⟨[.tokens (text.map .literal)], false, false⟩ := by
  rw [Pattern.parse_dropMarkerEscape, parse, Lexeme.ofBody_escape h, ofLexemes_literals]

end Glob

/-- Where letters compare as they are, literals take their own text and no other. -/
theorem Token.matchAll_literals {text other : Text} :
    MatchAll .sensitive (text.map .literal) other ↔ other = text := by
  induction text generalizing other with
  | nil => rw [List.map_nil, MatchAll]
  | cons c text ih =>
    cases other with
    | nil => simp [MatchAll]
    | cons d other =>
      rw [List.map_cons, matchAll_cons Token.noConfusion]
      simp [ih, Admits, CaseSensitivity.Same, eq_comm]

theorem RegexMatcher.isMatch_escape {engine : Engine} {text : Text} {negative : Bool}
    (htext : IsName text) {key : MatcherKey}
    (hkey : key = ⟨Pattern.dropMarkerEscape (Text.escape text), negative, .sensitive⟩)
    (haccepted : Accepted engine key) {names : List Text} (hnames : names ≠ [])
    (hall : ∀ name ∈ names, IsName name) (directory : Bool) :
    (compile key engine).isMatch
        (['/'].intercalate names ++ if directory then ['/'] else []) = true ↔
      names.getLast? = some text := by
  obtain ⟨hne, hslash⟩ := htext
  rw [hkey] at haccepted ⊢
  rw [isMatch_iff_matchesNames (Pattern.dropMarkerEscape_escape_ne_nil hne) haccepted hnames hall]
  simp only [Glob.parse_escape hslash]
  constructor
  · intro h
    obtain ⟨ts, name, hsegments, hlast, hname⟩ := h.floating rfl
    have htokens : text.map .literal = ts := by simpa using hsegments
    rw [← htokens, Token.matchAll_literals] at hname
    rw [hlast, hname]
  · intro hlast
    have hclasses : (⟨[.tokens (text.map .literal)], false, false⟩ : Glob).ClassesListed := by
      simp [Glob.ClassesListed]
    exact ⟨hclasses, Bool.noConfusion,
      fun _ => ⟨_, text, rfl, hlast, Token.matchAll_literals.mpr rfl⟩, Bool.noConfusion⟩

namespace Rule

/-- A line that escapes each character of a name is a positive rule, and it matches the paths whose
last component is the name, be they written as directories or not. Of a blank at the end of the name
no more is kept than that there is one: it counts as a space. -/
theorem parse_escaped {engine : Engine} {compiler : Compiler}
    (hcompiler : ∀ key, (compiler.supply key).1 = Matcher.compile key engine) {name : Text}
    (hname : IsName name) :
    ∃ rule, Rule.parse? .sensitive (Text.escape name) compiler = some rule ∧
      rule.polarity = .exclude ∧
      (RegexMatcher.Accepted engine rule.key →
        ∀ names, names ≠ [] → (∀ other ∈ names, IsName other) → ∀ directory : Bool,
          (rule.applies (['/'].intercalate names ++ if directory then ['/'] else []) = true ↔
            names.getLast? = some (Text.spaceAtEnd name))) := by
  let body := Pattern.dropMarkerEscape (Text.escape (Text.spaceAtEnd name))
  let rule := (compiler.rule .sensitive ⟨Text.escape name, body, false⟩).1
  have hparse : Rule.parse? .sensitive (Text.escape name) compiler = some rule := by
    rw [Rule.parse?, Pattern.ofLine?_escape hname.1]
    rfl
  have hmatcher : rule.matcher = Matcher.compile ⟨body, false, .sensitive⟩ engine := hcompiler _
  refine ⟨rule, hparse, rfl, ?_⟩
  intro haccepted names hne hnames directory
  have hkept : IsName (Text.spaceAtEnd name) :=
    ⟨Text.spaceAtEnd_ne_nil hname.1, Text.slash_notMem_spaceAtEnd hname.2⟩
  rw [applies, hmatcher]
  exact RegexMatcher.isMatch_escape hkept rfl haccepted hne hnames directory

/-- The name begins with a marker and ends in a tab. The rule matches the directory `d/!* `, which
ends in a space. -/
theorem parse_escaped_tab :
    ∃ rule, Rule.parse? .sensitive ['\\', '!', '\\', '*', '\\', '\t'] (.fresh .bounded) =
        some rule ∧
      rule.polarity = .exclude ∧ rule.applies ['d', '/', '!', '*', ' ', '/'] = true := by
  have hname : IsName ['!', '*', '\t'] := by simp [IsName]
  have hnames : ∀ name ∈ [['d'], ['!', '*', ' ']], IsName name := by simp [IsName]
  have hsupply : ∀ key, ((Compiler.fresh .bounded).supply key).1 = Matcher.compile key .bounded :=
    fun key => rfl
  obtain ⟨rule, hparse, hpolarity, hmatch⟩ := parse_escaped hsupply hname
  have hkey : rule.key = ⟨['!', '\\', '*', '\\', ' '], false, .sensitive⟩ := by
    cases hparse
    rfl
  have hglob : Glob.parse ['!', '\\', '*', '\\', ' '] =
      ⟨[.tokens [.literal '!', .literal '*', .literal ' ']], false, false⟩ := by
    decide +kernel
  have haccepted : RegexMatcher.Accepted .bounded rule.key := by
    intro r hr
    rw [hkey] at hr ⊢
    rw [hglob] at hr
    cases hr
    decide
  refine ⟨rule, hparse, hpolarity, ?_⟩
  exact (hmatch haccepted [['d'], ['!', '*', ' ']] (List.cons_ne_nil _ _) hnames true).mpr rfl

/-- A tab that is escaped does not match itself, though the engine accepts the rule. What it matches
is a space. -/
theorem parse_escaped_tab_alone :
    (Rule.parse? .sensitive ['\\', '\t'] (.direct (Matcher.compile · .bounded))).map
        (fun rule => (rule.applies ['\t'], rule.applies [' '])) = some (false, true) := by
  decide +kernel

end Rule

end IgnoreRules
