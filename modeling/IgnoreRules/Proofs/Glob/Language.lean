import IgnoreRules.Matcher
import IgnoreRules.Proofs.Regex.Search
import IgnoreRules.Proofs.Text.Spellings

/-! # The language of a glob

Which paths a glob matches is said here without regular expressions: tokens take characters, and
segments take components and separators. Every expression of a glob looks around itself only where
a match begins and ends, so the rest of it is a language in the plain sense.
-/

namespace IgnoreRules

namespace Token

def Admits (case : CaseSensitivity) : Token → Char → Prop
  | .literal a, c => case.Same a c
  | .star, c => c ≠ '/'
  | .anyChar, c => c ≠ '/'
  | .charClass cls, c => cls.Admits case c

def MatchAll (case : CaseSensitivity) : List Token → Text → Prop
  | [], text => text = []
  | .star :: ts, [] => MatchAll case ts []
  | .star :: ts, c :: text =>
    MatchAll case ts (c :: text) ∨ Token.star.Admits case c ∧ MatchAll case (.star :: ts) text
  | _ :: _, [] => False
  | t :: ts, c :: text => t.Admits case c ∧ MatchAll case ts text
termination_by ts text => ts.length + text.length

variable {case : CaseSensitivity}

theorem matchAll_star {ts : List Token} {text : Text} : MatchAll case (.star :: ts) text ↔
    ∃ front back, text = front ++ back ∧ (∀ c ∈ front, c ≠ '/') ∧ MatchAll case ts back := by
  induction text with
  | nil =>
    rw [MatchAll]
    constructor
    · exact fun h => ⟨[], [], rfl, by simp, h⟩
    · rintro ⟨front, back, heq, -, h⟩
      obtain ⟨rfl, rfl⟩ := List.append_eq_nil_iff.mp heq.symm
      exact h
  | cons c text ih =>
    rw [MatchAll, ih]
    constructor
    · rintro (h | ⟨hc, front, back, rfl, hfront, h⟩)
      · exact ⟨[], c :: text, rfl, by simp, h⟩
      · exact ⟨c :: front, back, rfl, List.forall_mem_cons.mpr ⟨hc, hfront⟩, h⟩
    · rintro ⟨front, back, heq, hfront, h⟩
      cases front with
      | nil =>
        rw [List.nil_append] at heq
        exact Or.inl (heq ▸ h)
      | cons d front =>
        obtain ⟨rfl, rfl⟩ := List.cons.inj heq
        obtain ⟨hc, hfront⟩ := List.forall_mem_cons.mp hfront
        exact Or.inr ⟨hc, front, back, rfl, hfront, h⟩

theorem matchAll_cons {t : Token} (ht : t ≠ .star) {ts : List Token} {text : Text} :
    MatchAll case (t :: ts) text ↔
      ∃ front back, text = front ++ back ∧ (∃ c, front = [c] ∧ t.Admits case c) ∧
        MatchAll case ts back := by
  cases text with
  | nil =>
    have hfalse : ¬ MatchAll case (t :: ts) [] := by
      rw [MatchAll]
      · exact id
      · exact ht
    refine iff_of_false hfalse ?_
    rintro ⟨_, back, heq, ⟨c, rfl, -⟩, -⟩
    cases heq
  | cons c text =>
    have hstep : MatchAll case (t :: ts) (c :: text) ↔ t.Admits case c ∧ MatchAll case ts text := by
      rw [MatchAll]
      exact ht
    rw [hstep]
    constructor
    · rintro ⟨hc, h⟩
      exact ⟨[c], text, rfl, ⟨c, rfl, hc⟩, h⟩
    · rintro ⟨_, back, heq, ⟨d, rfl, hd⟩, h⟩
      obtain ⟨rfl, rfl⟩ := List.cons.inj heq
      exact ⟨hd, h⟩

/-- The tokens make up a component, and a lone star makes up no empty one. -/
def Fill (case : CaseSensitivity) (ts : List Token) (text : Text) : Prop :=
  MatchAll case ts text ∧ (ts = [.star] → text ≠ [])

end Token

def IsName (name : Text) : Prop := name ≠ [] ∧ '/' ∉ name

def directories (names : List Text) : Text := names.flatMap (· ++ ['/'])

namespace Segment

def MatchText (case : CaseSensitivity) : List Segment → Text → Prop
  | [], text => text = []
  | [.globStar], text => text ≠ []
  | .globStar :: rest, text =>
    ∃ names back, text = directories names ++ back ∧ (∀ name ∈ names, IsName name) ∧
      MatchText case rest back
  | [.tokens ts], text => Token.Fill case ts text
  | .tokens ts :: rest, text =>
    ∃ front back, text = front ++ '/' :: back ∧ Token.Fill case ts front ∧ MatchText case rest back

theorem matchText_globStar {case : CaseSensitivity} {rest : List Segment} (hrest : rest ≠ [])
    {text : Text} :
    MatchText case (.globStar :: rest) text ↔
      ∃ names back, text = directories names ++ back ∧ (∀ name ∈ names, IsName name) ∧
        MatchText case rest back := by
  rw [MatchText]
  exact hrest

theorem matchText_tokens {case : CaseSensitivity} {ts : List Token} {rest : List Segment}
    (hrest : rest ≠ []) {text : Text} :
    MatchText case (.tokens ts :: rest) text ↔
      ∃ front back, text = front ++ '/' :: back ∧ Token.Fill case ts front ∧
        MatchText case rest back := by
  rw [MatchText]
  exact hrest

/-- A match of the segments may end before this text. -/
def Closes (directoryOnly : Bool) (segments : List Segment) (after : Text) : Prop :=
  if directoryOnly then after = ['/']
  else segments.getLast? = some .globStar ∨ after = [] ∨ after = ['/']

end Segment

namespace Glob

/-- The segments without a `**` at the start that has something behind it. -/
def core (glob : Glob) : List Segment :=
  match glob.segments with
  | .globStar :: next :: rest => next :: rest
  | segments => segments

theorem mem_segments_of_mem_core {glob : Glob} {s : Segment} (h : s ∈ glob.core) :
    s ∈ glob.segments := by
  unfold core at h
  split at h
  · next next rest hsegments =>
    rw [hsegments]
    exact List.mem_cons_of_mem _ h
  · exact h

theorem core_eq_segments {glob : Glob}
    (h : ¬ ∃ next rest, glob.segments = .globStar :: next :: rest) : glob.core = glob.segments := by
  unfold core
  split
  · next next rest hsegments => exact absurd ⟨next, rest, hsegments⟩ h
  · rfl

def Floats (glob : Glob) : Prop :=
  (∃ next rest, glob.segments = .globStar :: next :: rest) ∨ glob.anchored = false

theorem not_floats {glob : Glob} (h : ¬ ∃ next rest, glob.segments = .globStar :: next :: rest)
    (hanchored : glob.anchored = true) : ¬ glob.Floats := by
  rintro (hdeep | hfloating)
  · exact h hdeep
  · exact absurd (hanchored.symm.trans hfloating) (by decide)

def Opens (glob : Glob) (before : Text) : Prop :=
  before = [] ∨ glob.Floats ∧ ∃ front, before = front ++ ['/']

/-- The text has a part that the segments take, and the match may begin and end there. -/
def Matches (case : CaseSensitivity) (glob : Glob) (text : Text) : Prop :=
  ∃ before middle after, text = before ++ middle ++ after ∧ glob.Opens before ∧
    Segment.MatchText case glob.core middle ∧
    Segment.Closes glob.directoryOnly glob.segments after

end Glob

/-! ## The expressions have this language -/

abbrev spans (case : CaseSensitivity) (rs : List (Regex Atom)) : Span :=
  .all (rs.map (·.span (Atom.Test case)))

section

variable {case : CaseSensitivity}

theorem spans_singleton (r : Regex Atom) (before middle after : Text) :
    spans case [r] before middle after ↔ r.span (Atom.Test case) before middle after :=
  Span.all_singleton _ before middle after

theorem isFree_append {first second : List (Regex Atom)} {language language' : Text → Prop}
    (h : (spans case first).IsFree language) (h' : (spans case second).IsFree language') :
    (spans case (first ++ second)).IsFree fun text =>
      ∃ front back, text = front ++ back ∧ language front ∧ language' back := by
  rw [spans, List.map_append]
  exact h.all_append h'

theorem test_literal {a c : Char} : (Atom.literal a).Test case c ↔ case.Same a c := by
  rw [Atom.Test, Atom.accepts, List.contains_iff_mem, CaseSensitivity.toNat_mem_spellings]

theorem test_slash {c : Char} : (Atom.literal '/').Test case c ↔ c = '/' :=
  test_literal.trans CaseSensitivity.same_slash

theorem test_oneOf {cls : CharClass} {c : Char} : (Atom.oneOf cls).Test case c ↔ cls.Admits case c :=
  CharClass.accepts_iff

theorem test_inComponent {c : Char} : (Atom.oneOf .anyButSlash).Test case c ↔ c ≠ '/' :=
  test_oneOf.trans CharClass.admits_anyButSlash

theorem Token.span_regex {t : Token} (ht : t ≠ .star) :
    (t.regex.span (Atom.Test case)).IsFree fun text => ∃ c, text = [c] ∧ t.Admits case c := by
  cases t with
  | star => exact absurd rfl ht
  | literal a =>
    exact (Span.IsFree.one _).congr fun text =>
      exists_congr fun c => and_congr_right fun _ => test_literal
  | anyChar =>
    exact (Span.IsFree.one _).congr fun text =>
      exists_congr fun c => and_congr_right fun _ => test_inComponent
  | charClass cls =>
    exact (Span.IsFree.one _).congr fun text =>
      exists_congr fun c => and_congr_right fun _ => test_oneOf

theorem span_star : ((Token.regex .star).span (Atom.Test case)).IsFree fun text =>
    ∀ c ∈ text, c ≠ '/' :=
  (Span.IsFree.repeats_one _).congr fun _ => forall₂_congr fun _ _ => test_inComponent

theorem span_plus : ((Regex.plus .inComponent).span (Atom.Test case)).IsFree fun text =>
    text ≠ [] ∧ ∀ c ∈ text, c ≠ '/' :=
  (Span.IsFree.plus_one _).congr fun _ =>
    and_congr_right fun _ => forall₂_congr fun _ _ => test_inComponent

theorem span_slash : ((Regex.char '/').span (Atom.Test case)).IsFree fun text => text = ['/'] :=
  (Span.IsFree.one _).congr fun text => by simp [test_slash]

theorem Token.spans_regex (ts : List Token) :
    (spans case (ts.map Token.regex)).IsFree (Token.MatchAll case ts) := by
  induction ts with
  | nil => exact Span.IsFree.nothing.congr fun text => by rw [Token.MatchAll]
  | cons t ts ih =>
    by_cases ht : t = .star
    · subst ht
      exact (span_star.seq ih).congr fun text => Token.matchAll_star.symm
    · exact ((Token.span_regex ht).seq ih).congr fun text => (Token.matchAll_cons ht).symm

namespace Segment

theorem spans_component (ts : List Token) :
    (spans case (component ts)).IsFree (Token.Fill case ts) := by
  by_cases hts : ts = [.star]
  · subst hts
    refine span_plus.all_singleton.congr fun text => ?_
    rw [Token.Fill, Token.matchAll_star]
    constructor
    · rintro ⟨hne, h⟩
      exact ⟨⟨text, [], by simp, h, by rw [Token.MatchAll]⟩, fun _ => hne⟩
    · rintro ⟨⟨front, back, rfl, h, hback⟩, hne⟩
      rw [Token.MatchAll] at hback
      subst hback
      refine ⟨hne rfl, ?_⟩
      simpa using h
  · have hcomponent : component ts = ts.map Token.regex := by
      unfold component
      split
      · exact absurd rfl hts
      · rfl
    rw [hcomponent]
    refine (Token.spans_regex ts).congr fun text => ?_
    simp only [Token.Fill, hts, false_implies, and_true]

theorem span_anyComponents : (anyComponents.span (Atom.Test case)).IsFree fun text =>
    ∃ names, text = directories names ∧ ∀ name ∈ names, IsName name := by
  refine (span_plus.seq span_slash).repeats.congr fun text => ?_
  constructor
  · rintro ⟨parts, rfl, hparts⟩
    induction parts with
    | nil => exact ⟨[], rfl, by simp⟩
    | cons part parts ih =>
      obtain ⟨⟨name, _, rfl, ⟨hne, hname⟩, rfl⟩, hrest⟩ := List.forall_mem_cons.mp hparts
      obtain ⟨names, hnames, hall⟩ := ih hrest
      refine ⟨name :: names, ?_, List.forall_mem_cons.mpr ⟨⟨hne, ?_⟩, hall⟩⟩
      · rw [List.flatten_cons, hnames]
        rfl
      · exact fun hmem => hname '/' hmem rfl
  · rintro ⟨names, rfl, hall⟩
    refine ⟨names.map (· ++ ['/']), rfl, ?_⟩
    intro part hpart
    obtain ⟨name, hname, rfl⟩ := List.mem_map.mp hpart
    obtain ⟨hne, hslash⟩ := hall name hname
    exact ⟨name, ['/'], rfl, ⟨hne, fun c hc heq => hslash (heq ▸ hc)⟩, rfl⟩

theorem spans_regexes (segments : List Segment) :
    (spans case (regexes segments)).IsFree (MatchText case segments) := by
  fun_induction regexes segments with
  | case1 => exact Span.IsFree.nothing.congr fun text => by rw [MatchText]
  | case2 =>
    refine (Span.IsFree.plus_one _).all_singleton.congr fun text => ?_
    simp [MatchText, Atom.Test, Atom.accepts]
  | case3 rest hne ih =>
    refine (span_anyComponents.seq ih).congr fun text => ?_
    rw [matchText_globStar hne]
    constructor
    · rintro ⟨_, back, rfl, ⟨names, rfl, hall⟩, h⟩
      exact ⟨names, back, rfl, hall, h⟩
    · rintro ⟨names, back, rfl, hall, h⟩
      exact ⟨_, back, rfl, ⟨names, rfl, hall⟩, h⟩
  | case4 ts =>
    refine (spans_component ts).congr fun text => ?_
    rw [MatchText]
  | case5 ts rest hne ih =>
    have htail : (spans case (.char '/' :: regexes rest)).IsFree fun text =>
        ∃ front back, text = front ++ back ∧ front = ['/'] ∧ MatchText case rest back :=
      span_slash.seq ih
    refine (isFree_append (spans_component ts) htail).congr fun text => ?_
    rw [matchText_tokens hne]
    constructor
    · rintro ⟨front, _, rfl, hfront, _, back, rfl, rfl, h⟩
      exact ⟨front, back, rfl, hfront, h⟩
    · rintro ⟨front, back, rfl, hfront, h⟩
      exact ⟨front, '/' :: back, rfl, hfront, ['/'], back, rfl, rfl, h⟩

end Segment

def skipDirectories : Regex Atom := .opt (.seq (.star .anyChar) (.char '/'))

theorem span_skipDirectories : (skipDirectories.span (Atom.Test case)).IsFree fun text =>
    text = [] ∨ ∃ front, text = front ++ ['/'] := by
  intro before middle after
  have hany := (Span.IsFree.repeats_one (Atom.Test case .any)).seq (@span_slash case)
  refine or_congr Iff.rfl ((hany before middle after).trans ?_)
  constructor
  · rintro ⟨front, _, rfl, -, rfl⟩
    exact ⟨front, rfl⟩
  · rintro ⟨front, rfl⟩
    exact ⟨front, ['/'], rfl, fun _ _ => rfl, rfl⟩

namespace Glob

theorem beginning_cases (glob : Glob) :
    (glob.Floats ∧ glob.beginning = ([.textStart, skipDirectories], glob.core)) ∨
    (¬ glob.Floats ∧ glob.beginning = ([.textStart], glob.core)) ∨
    (glob.Floats ∧ glob.beginning = ([.alt .textStart (.char '/')], glob.core)) := by
  by_cases hdeep : ∃ next rest, glob.segments = .globStar :: next :: rest
  · obtain ⟨next, rest, hsegments⟩ := hdeep
    refine Or.inl ⟨Or.inl ⟨next, rest, hsegments⟩, ?_⟩
    rw [beginning, core, hsegments]
    rfl
  · have hcore : glob.core = glob.segments := core_eq_segments hdeep
    have hbeginning : glob.beginning = if glob.anchored then ([.textStart], glob.core)
        else ([.alt .textStart (.char '/')], glob.core) := by
      rw [hcore]
      unfold beginning
      split
      · next next rest hsegments => exact absurd ⟨next, rest, hsegments⟩ hdeep
      · rfl
    cases hanchored : glob.anchored with
    | true =>
      exact Or.inr (Or.inl ⟨not_floats hdeep hanchored, by rw [hbeginning, hanchored]; rfl⟩)
    | false => exact Or.inr (Or.inr ⟨Or.inr hanchored, by rw [hbeginning, hanchored]; rfl⟩)

theorem regexes_eq (glob : Glob) :
    glob.regexes = glob.beginning.1 ++ Segment.regexes glob.core ++ glob.ending := by
  have hcore : glob.beginning.2 = glob.core := by
    rcases glob.beginning_cases with ⟨-, h⟩ | ⟨-, h⟩ | ⟨-, h⟩ <;> rw [h]
  rw [regexes, ← hcore]

theorem opens_iff (glob : Glob) (before behind : Text) :
    (∃ skipped front, before = skipped ++ front ∧
      spans case glob.beginning.1 skipped front behind) ↔ glob.Opens before := by
  rcases glob.beginning_cases with ⟨hfloats, h⟩ | ⟨hfloats, h⟩ | ⟨hfloats, h⟩
  · rw [h]
    constructor
    · rintro ⟨_, _, rfl, _, front, rfl, ⟨rfl, rfl⟩, hskip⟩
      rcases (span_skipDirectories _ _ _).mp ((spans_singleton _ _ _ _).mp hskip) with rfl | hskip
      · exact Or.inl rfl
      · exact Or.inr ⟨hfloats, by simpa using hskip⟩
    · intro hopens
      refine ⟨[], before, rfl, [], before, rfl, ⟨rfl, rfl⟩, ?_⟩
      exact (spans_singleton _ _ _ _).mpr
        ((span_skipDirectories _ _ _).mpr (hopens.imp_right And.right))
  · rw [h]
    constructor
    · rintro ⟨_, _, rfl, hstart⟩
      obtain ⟨rfl, rfl⟩ := (spans_singleton _ _ _ _).mp hstart
      exact Or.inl rfl
    · rintro (rfl | ⟨hfloat, -⟩)
      · exact ⟨[], [], rfl, (spans_singleton _ _ _ _).mpr ⟨rfl, rfl⟩⟩
      · exact absurd hfloat hfloats
  · rw [h]
    constructor
    · rintro ⟨skipped, front, rfl, hstart⟩
      rcases (spans_singleton _ _ _ _).mp hstart with ⟨rfl, rfl⟩ | hslash
      · exact Or.inl rfl
      · obtain rfl := (span_slash _ _ _).mp hslash
        exact Or.inr ⟨hfloats, skipped, rfl⟩
    · rintro (rfl | ⟨-, front, rfl⟩)
      · exact ⟨[], [], rfl, (spans_singleton _ _ _ _).mpr (Or.inl ⟨rfl, rfl⟩)⟩
      · exact ⟨front, ['/'], rfl,
          (spans_singleton _ _ _ _).mpr (Or.inr ((span_slash _ _ _).mpr rfl))⟩

theorem closes_iff (glob : Glob) (before after : Text) :
    (∃ back behind, after = back ++ behind ∧ spans case glob.ending before back behind) ↔
      Segment.Closes glob.directoryOnly glob.segments after := by
  have hslash : ∀ {before back behind : Text},
      Span.seq ((Regex.char '/').span (Atom.Test case)) .atEnd before back behind ↔
        back = ['/'] ∧ behind = [] := by
    intro before back behind
    constructor
    · rintro ⟨_, _, rfl, h, rfl, hbehind⟩
      rw [(span_slash _ _ _).mp h]
      exact ⟨rfl, hbehind⟩
    · rintro ⟨rfl, rfl⟩
      exact ⟨['/'], [], rfl, (span_slash _ _ _).mpr rfl, rfl, rfl⟩
  unfold ending Segment.Closes
  split
  · have hspans : ∀ back behind, spans case [.char '/', .textEnd] before back behind ↔
        back = ['/'] ∧ behind = [] := fun back behind =>
      (Span.seq_congr (fun _ _ _ => Iff.rfl) (spans_singleton _) before back behind).trans hslash
    simp only [hspans]
    constructor
    · rintro ⟨_, _, rfl, rfl, rfl⟩
      rfl
    · rintro rfl
      exact ⟨['/'], [], rfl, rfl, rfl⟩
  · split
    · next hlast => exact iff_of_true ⟨[], after, rfl, rfl⟩ (Or.inl hlast)
    · next hlast =>
      simp only [hlast, false_or]
      constructor
      · rintro ⟨back, behind, rfl, hend⟩
        rcases (spans_singleton _ _ _ _).mp hend with ⟨rfl, rfl⟩ | hend
        · exact Or.inl rfl
        · obtain ⟨rfl, rfl⟩ := hslash.mp hend
          exact Or.inr rfl
      · rintro (rfl | rfl)
        · exact ⟨[], [], rfl, (spans_singleton _ _ _ _).mpr (Or.inl ⟨rfl, rfl⟩)⟩
        · exact ⟨['/'], [], rfl, (spans_singleton _ _ _ _).mpr (Or.inr (hslash.mpr ⟨rfl, rfl⟩))⟩

/-- The expression of a glob finds exactly what the glob matches. -/
theorem finds_regexes (glob : Glob) (text : Text) :
    (spans case glob.regexes).Finds text ↔ glob.Matches case text := by
  have hsplit : ∀ before middle after, spans case glob.regexes before middle after ↔
      Span.seq (spans case glob.beginning.1)
        (Span.seq (spans case (Segment.regexes glob.core)) (spans case glob.ending))
        before middle after := by
    intro before middle after
    rw [← Span.seq_assoc, spans, regexes_eq, List.map_append, List.map_append, Span.all_append]
    exact Span.seq_congr (Span.all_append _ _) (fun _ _ _ => Iff.rfl) before middle after
  constructor
  · rintro ⟨skipped, middle, behind, rfl, h⟩
    obtain ⟨front, _, rfl, hopen, middle, back, rfl, hmiddle, hclose⟩ := (hsplit _ _ _).mp h
    refine ⟨skipped ++ front, middle, back ++ behind, by simp, ?_, ?_, ?_⟩
    · exact (glob.opens_iff _ _).mp ⟨skipped, front, rfl, hopen⟩
    · exact (Segment.spans_regexes _ _ _ _).mp hmiddle
    · exact (glob.closes_iff _ _).mp ⟨back, behind, rfl, hclose⟩
  · rintro ⟨before, middle, after, rfl, hopens, hmiddle, hcloses⟩
    obtain ⟨back, behind, rfl, hclose⟩ :=
      (@closes_iff case glob (before ++ middle) after).mpr hcloses
    obtain ⟨skipped, front, rfl, hopen⟩ :=
      (@opens_iff case glob before (middle ++ back ++ behind)).mpr hopens
    refine ⟨skipped, front ++ (middle ++ back), behind, by simp, (hsplit _ _ _).mpr ?_⟩
    exact ⟨front, middle ++ back, rfl, hopen, middle, back, rfl,
      (Segment.spans_regexes _ _ _ _).mpr hmiddle, hclose⟩

/-- A matcher whose expression is put to use matches what the glob matches. -/
theorem isMatch_ofGlob {engine : Engine} {glob : Glob}
    (hengine : ∀ r, glob.regex? = some r → engine case r = true) (path : Text) :
    (RegexMatcher.ofGlob case glob engine).isMatch path = true ↔
      glob.canMatch = true ∧ glob.Matches case path := by
  unfold RegexMatcher.ofGlob
  by_cases hcan : glob.canMatch = true
  · have hregex : glob.regex? = some (.concat glob.regexes) := if_pos hcan
    rw [hregex]
    simp only [hengine _ hregex, if_true, RegexMatcher.isMatch, Regex.search_iff, hcan, true_and]
    rw [← glob.finds_regexes]
    simp only [Span.Finds, Regex.span_concat]
  · have hregex : glob.regex? = none := if_neg hcan
    rw [hregex]
    simp [RegexMatcher.isMatch, hcan]

/-- Whatever the engine refuses, no matcher matches more than its glob does. -/
theorem matches_of_isMatch {engine : Engine} {glob : Glob} {path : Text}
    (h : (RegexMatcher.ofGlob case glob engine).isMatch path = true) :
    glob.canMatch = true ∧ glob.Matches case path := by
  by_cases hengine : ∀ r, glob.regex? = some r → engine case r = true
  · exact (isMatch_ofGlob hengine path).mp h
  · obtain ⟨r, hr⟩ := Classical.not_forall.mp hengine
    obtain ⟨hregex, hrefused⟩ := Classical.not_imp.mp hr
    rw [RegexMatcher.ofGlob, hregex] at h
    simp [RegexMatcher.isMatch, hrefused] at h

end Glob

end

namespace RegexMatcher

/-- The engine accepts the expression of the pattern, if the pattern has one. -/
def Accepted (engine : Engine) (key : MatcherKey) : Prop :=
  ∀ r, (Glob.parse key.pattern).regex? = some r → engine key.case r = true

instance (engine : Engine) (key : MatcherKey) : Decidable (Accepted engine key) :=
  decidable_of_iff ((Glob.parse key.pattern).regex?.all (engine key.case) = true) (by
    simp [Accepted, Option.all_eq_true])

end RegexMatcher

end IgnoreRules
