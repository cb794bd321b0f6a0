import IgnoreRules.Proofs.Glob.Language
import IgnoreRules.Proofs.Glob.Parsed

/-! # Matching component by component

A glob that was read from a body can be compared with a path one component at a time: tokens never
reach across a separator. What a match skips before it begins, and what a `**` takes, are then whole
components.
-/

namespace IgnoreRules

def joinNames (directory : Bool) : List Text → Text
  | [] => []
  | name :: names =>
    name ++ if names = [] ∧ directory = false then [] else '/' :: joinNames directory names

theorem joinNames_eq_intercalate {directory : Bool} {names : List Text} (h : names ≠ []) :
    joinNames directory names =
      ['/'].intercalate names ++ if directory then ['/'] else [] := by
  induction names with
  | nil => exact absurd rfl h
  | cons name names ih =>
    cases names with
    | nil => cases directory <;> simp [joinNames]
    | cons next names =>
      rw [joinNames, if_neg (by simp), ih (List.cons_ne_nil next names)]
      simp [List.intercalate]

section

variable {directory : Bool} {name : Text} {names : List Text}

theorem joinNames_ne_nil (h : name ≠ []) : joinNames directory (name :: names) ≠ [] := by
  rw [joinNames]
  simp [h]

theorem joinNames_cons_of_ne_nil (h : names ≠ []) :
    joinNames directory (name :: names) = name ++ '/' :: joinNames directory names := by
  rw [joinNames, if_neg (by simp [h])]

theorem joinNames_eq_append_slash (hname : IsName name) {front back : Text} (hfront : '/' ∉ front) :
    joinNames directory (name :: names) = front ++ '/' :: back ↔
      front = name ∧ back = joinNames directory names ∧ (names ≠ [] ∨ directory = true) := by
  rw [joinNames]
  by_cases hlast : names = [] ∧ directory = false
  · rw [if_pos hlast, List.append_nil]
    constructor
    · rintro rfl
      exact absurd (by simp) hname.2
    · rintro ⟨-, -, h⟩
      rcases h with h | h
      · exact absurd hlast.1 h
      · exact absurd (h.symm.trans hlast.2) (by decide)
  · rw [if_neg hlast, append_cons_inj hname.2 hfront]
    have hmore : names ≠ [] ∨ directory = true := by
      by_cases hnames : names = []
      · exact Or.inr (eq_true_of_ne_false fun h => hlast ⟨hnames, h⟩)
      · exact Or.inl hnames
    constructor
    · rintro ⟨rfl, rfl⟩
      exact ⟨rfl, rfl, hmore⟩
    · rintro ⟨rfl, rfl, -⟩
      exact ⟨rfl, rfl⟩

theorem joinNames_eq_of_notMem {front : Text} (hfront : '/' ∉ front)
    (h : joinNames directory (name :: names) = front) :
    front = name ∧ names = [] ∧ directory = false := by
  subst h
  rw [joinNames] at hfront
  by_cases hlast : names = [] ∧ directory = false
  · refine ⟨?_, hlast⟩
    rw [joinNames, if_pos hlast, List.append_nil]
  · rw [if_neg hlast] at hfront
    exact absurd (by simp) hfront

/-- What stands behind whole directories is the path of the names that are left. -/
theorem exists_eq_append_of_directories (hnames : ∀ name ∈ names, IsName name) {dirs : List Text}
    (hdirs : ∀ name ∈ dirs, IsName name) {back : Text}
    (h : joinNames directory names = directories dirs ++ back) :
    ∃ suffix, names = dirs ++ suffix ∧ back = joinNames directory suffix := by
  induction dirs generalizing names with
  | nil => exact ⟨names, rfl, h.symm⟩
  | cons dir dirs ih =>
    obtain ⟨hdir, hdirs⟩ := List.forall_mem_cons.mp hdirs
    have hcons : directories (dir :: dirs) ++ back = dir ++ '/' :: (directories dirs ++ back) := by
      simp [directories]
    rw [hcons] at h
    cases names with
    | nil => exact absurd h (by simp [joinNames])
    | cons name names =>
      obtain ⟨hname, hrest⟩ := List.forall_mem_cons.mp hnames
      obtain ⟨rfl, hback, -⟩ := (joinNames_eq_append_slash hname hdir.2).mp h
      obtain ⟨suffix, rfl, hsuffix⟩ := ih hrest hdirs hback.symm
      exact ⟨suffix, rfl, hsuffix⟩

theorem joinNames_append {dirs : List Text} (h : names ≠ []) :
    joinNames directory (dirs ++ names) = directories dirs ++ joinNames directory names := by
  induction dirs with
  | nil => rfl
  | cons dir dirs ih =>
    rw [List.cons_append, joinNames_cons_of_ne_nil (by simp [h]), ih]
    simp [directories]

/-- A cut behind a separator leaves the path of the names behind it. -/
theorem exists_eq_append_of_slash (hnames : ∀ name ∈ names, IsName name) {front back : Text}
    (h : joinNames directory names = front ++ '/' :: back) :
    ∃ dirs suffix, names = dirs ++ suffix ∧ back = joinNames directory suffix := by
  induction names generalizing front with
  | nil => simp [joinNames] at h
  | cons name names ih =>
    obtain ⟨hname, hrest⟩ := List.forall_mem_cons.mp hnames
    by_cases hslash : '/' ∈ front
    · obtain ⟨first, tail, rfl, hfirst⟩ := List.eq_append_cons_of_mem hslash
      rw [List.append_assoc, List.cons_append] at h
      obtain ⟨rfl, htail, -⟩ := (joinNames_eq_append_slash hname hfirst).mp h
      obtain ⟨dirs, suffix, rfl, hback⟩ := ih hrest htail.symm
      exact ⟨first :: dirs, suffix, rfl, hback⟩
    · obtain ⟨rfl, hback, -⟩ := (joinNames_eq_append_slash hname hslash).mp h
      exact ⟨[front], names, rfl, hback⟩

theorem directory_of_append_slash (hnames : ∀ name ∈ names, IsName name) {front : Text}
    (h : joinNames directory names = front ++ ['/']) : directory = true := by
  induction names generalizing front with
  | nil => simp [joinNames] at h
  | cons name names ih =>
    obtain ⟨hname, hrest⟩ := List.forall_mem_cons.mp hnames
    by_cases hslash : '/' ∈ front
    · obtain ⟨first, tail, rfl, hfirst⟩ := List.eq_append_cons_of_mem hslash
      rw [List.append_assoc, List.cons_append] at h
      obtain ⟨-, htail, -⟩ := (joinNames_eq_append_slash hname hfirst).mp h
      exact ih hrest htail.symm
    · obtain ⟨-, hback, hmore⟩ := (joinNames_eq_append_slash hname hslash).mp h
      cases names with
      | nil => exact hmore.resolve_left (fun h => h rfl)
      | cons next names =>
        exact absurd hback.symm (joinNames_ne_nil (hrest next List.mem_cons_self).1)

theorem joinNames_true (h : names ≠ []) :
    joinNames true names = joinNames false names ++ ['/'] := by
  rw [joinNames_eq_intercalate h, joinNames_eq_intercalate h]
  simp

end

namespace Token

variable {case : CaseSensitivity} {ts : List Token}

theorem notMem_of_admits {t : Token} (ht : t ≠ .literal '/') {c : Char} (h : t.Admits case c) :
    c ≠ '/' := by
  cases t with
  | literal a =>
    rintro rfl
    have ha := CaseSensitivity.same_slash.mp (CaseSensitivity.same_comm.mp h)
    exact ht (by rw [ha])
  | star | anyChar => exact h
  | charClass cls => exact h.1

/-- Without a literal separator, tokens stay within one component. -/
theorem notMem_of_matchAll {text : Text} (hts : ∀ c, .literal c ∈ ts → c ≠ '/')
    (h : MatchAll case ts text) : '/' ∉ text := by
  fun_induction MatchAll case ts text with
  | case1 text => simp [h]
  | case2 ts ih => simp
  | case3 ts c text ih ih' =>
    rcases h with h | ⟨hc, h⟩
    · exact ih (fun c hc => hts c (List.mem_cons_of_mem _ hc)) h
    · exact List.not_mem_cons_of_ne_of_not_mem (Ne.symm hc) (ih' hts h)
  | case4 => simp
  | case5 t ts c text ht ih =>
    have hslash : t ≠ .literal '/' := by
      rintro rfl
      exact hts '/' List.mem_cons_self rfl
    have hne : '/' ≠ c := Ne.symm (notMem_of_admits hslash h.1)
    exact List.not_mem_cons_of_ne_of_not_mem hne
      (ih (fun c hc => hts c (List.mem_cons_of_mem _ hc)) h.2)

theorem eq_star_of_matchAll_nil (h : MatchAll case ts []) : ∀ t ∈ ts, t = .star := by
  induction ts with
  | nil => simp
  | cons t ts ih =>
    by_cases ht : t = .star
    · subst ht
      rw [MatchAll] at h
      exact List.forall_mem_cons.mpr ⟨rfl, ih h⟩
    · obtain ⟨_, _, heq, ⟨c, rfl, -⟩, -⟩ := (matchAll_cons ht).mp h
      cases heq

end Token

namespace Segment

/-- The segments take all the components: tokens take one, a `**` at the end one or more, and any
other `**` any number. -/
def MatchNames (case : CaseSensitivity) : List Segment → List Text → Prop
  | [], names => names = []
  | [.globStar], names => names ≠ []
  | .globStar :: rest, [] => MatchNames case rest []
  | .globStar :: rest, name :: names =>
    MatchNames case rest (name :: names) ∨ MatchNames case (.globStar :: rest) names
  | .tokens _ :: _, [] => False
  | .tokens ts :: rest, name :: names => Token.MatchAll case ts name ∧ MatchNames case rest names
termination_by segments names => segments.length + names.length

variable {case : CaseSensitivity} {directoryOnly directory : Bool} {names : List Text}

theorem not_matchNames_nil {segments : List Segment} (h : segments ≠ []) :
    ¬ MatchNames case segments [] := by
  fun_induction regexes segments with
  | case1 => exact absurd rfl h
  | case2 => simp [MatchNames]
  | case3 rest hne ih =>
    rw [MatchNames]
    · exact ih hne
    · exact hne
  | case4 ts => simp [MatchNames]
  | case5 ts rest hne ih => simp [MatchNames]

theorem matchNames_globStar {rest : List Segment} (h : rest ≠ []) :
    MatchNames case (.globStar :: rest) names ↔
      ∃ dirs suffix, names = dirs ++ suffix ∧ MatchNames case rest suffix := by
  induction names with
  | nil =>
    rw [MatchNames]
    · constructor
      · exact fun hrest => ⟨[], [], rfl, hrest⟩
      · rintro ⟨dirs, suffix, heq, hrest⟩
        obtain ⟨rfl, rfl⟩ := List.append_eq_nil_iff.mp heq.symm
        exact hrest
    · exact h
  | cons name names ih =>
    rw [MatchNames, ih]
    · constructor
      · rintro (hrest | ⟨dirs, suffix, rfl, hrest⟩)
        · exact ⟨[], _, rfl, hrest⟩
        · exact ⟨name :: dirs, suffix, rfl, hrest⟩
      · rintro ⟨dirs, suffix, heq, hrest⟩
        cases dirs with
        | nil =>
          rw [List.nil_append] at heq
          exact Or.inl (heq ▸ hrest)
        | cons dir dirs =>
          obtain ⟨rfl, rfl⟩ := List.cons.inj heq
          exact Or.inr ⟨dirs, suffix, rfl, hrest⟩
    · exact h

theorem matchNames_tokens {ts : List Token} {rest : List Segment} :
    MatchNames case (.tokens ts :: rest) names ↔
      ∃ name others, names = name :: others ∧ Token.MatchAll case ts name ∧
        MatchNames case rest others := by
  cases names with
  | nil => simp [MatchNames]
  | cons name names =>
    rw [MatchNames]
    constructor
    · exact fun h => ⟨name, names, rfl, h⟩
    · rintro ⟨_, _, heq, h⟩
      obtain ⟨rfl, rfl⟩ := List.cons.inj heq
      exact h

theorem Clean.tail {segment : Segment} {rest : List Segment}
    (h : Clean directoryOnly (segment :: rest)) (hne : rest ≠ []) : Clean directoryOnly rest where
  ne_slash ts hts := h.ne_slash ts (List.mem_cons_of_mem _ hts)
  stars_apart ts hts := h.stars_apart ts (List.mem_cons_of_mem _ hts)
  last_empty hlast := h.last_empty (by rw [List.getLast?_cons_of_ne_nil hne, hlast])

theorem closes_cons {segment : Segment} {rest : List Segment} (hne : rest ≠ []) {after : Text} :
    Closes directoryOnly (segment :: rest) after ↔ Closes directoryOnly rest after := by
  rw [Closes, Closes, List.getLast?_cons_of_ne_nil hne]

/-- Unless a `**` stands at the end, a match reaches the end of the text. -/
theorem closes_iff_of_getLast? {segments : List Segment}
    (h : segments.getLast? ≠ some .globStar) {after : Text} :
    Closes directoryOnly segments after ↔ after = [] ∧ directoryOnly = false ∨ after = ['/'] := by
  cases directoryOnly with
  | true => simp [Closes]
  | false => simp [Closes, h]

theorem closes_tokens {ts : List Token} {after : Text} :
    Closes directoryOnly [.tokens ts] after ↔ after = [] ∧ directoryOnly = false ∨ after = ['/'] :=
  closes_iff_of_getLast? (by simp)

/-- The segments take the text from its first character up to where a match may end. -/
def Takes (case : CaseSensitivity) (directoryOnly : Bool) (segments : List Segment) (text : Text) :
    Prop :=
  ∃ middle after, text = middle ++ after ∧ MatchText case segments middle ∧
    Closes directoryOnly segments after

theorem takes_globStar {rest : List Segment} (hrest : rest ≠ []) {text : Text} :
    Takes case directoryOnly (.globStar :: rest) text ↔
      ∃ dirs back, text = directories dirs ++ back ∧ (∀ name ∈ dirs, IsName name) ∧
        Takes case directoryOnly rest back := by
  simp only [Takes, closes_cons hrest]
  constructor
  · rintro ⟨middle, after, rfl, hmiddle, hcloses⟩
    obtain ⟨dirs, back, rfl, hdirs, hback⟩ := (matchText_globStar hrest).mp hmiddle
    exact ⟨dirs, back ++ after, List.append_assoc _ _ _, hdirs, back, after, rfl, hback, hcloses⟩
  · rintro ⟨dirs, _, rfl, hdirs, middle, after, rfl, hmiddle, hcloses⟩
    refine ⟨directories dirs ++ middle, after, (List.append_assoc _ _ _).symm, ?_, hcloses⟩
    exact (matchText_globStar hrest).mpr ⟨dirs, middle, rfl, hdirs, hmiddle⟩

theorem takes_tokens {ts : List Token} {rest : List Segment} (hrest : rest ≠ []) {text : Text} :
    Takes case directoryOnly (.tokens ts :: rest) text ↔
      ∃ front back, text = front ++ '/' :: back ∧ Token.Fill case ts front ∧
        Takes case directoryOnly rest back := by
  simp only [Takes, closes_cons hrest]
  constructor
  · rintro ⟨middle, after, rfl, hmiddle, hcloses⟩
    obtain ⟨front, back, rfl, hfill, hback⟩ := (matchText_tokens hrest).mp hmiddle
    exact ⟨front, back ++ after, by simp, hfill, back, after, rfl, hback, hcloses⟩
  · rintro ⟨front, _, rfl, hfill, middle, after, rfl, hmiddle, hcloses⟩
    refine ⟨front ++ '/' :: middle, after, by simp, ?_, hcloses⟩
    exact (matchText_tokens hrest).mpr ⟨front, middle, rfl, hfill, hmiddle⟩

theorem takes_last_globStar (hnames : ∀ name ∈ names, IsName name) :
    Takes case directoryOnly [.globStar] (joinNames directory names) ↔
      names ≠ [] ∧ (directoryOnly = true → directory = true) := by
  simp only [Takes, MatchText]
  constructor
  · rintro ⟨middle, after, heq, hmiddle, hcloses⟩
    constructor
    · rintro rfl
      exact hmiddle (List.append_eq_nil_iff.mp heq.symm).1
    · rintro rfl
      have hafter : after = ['/'] := hcloses
      rw [hafter] at heq
      exact directory_of_append_slash hnames heq
  · rintro ⟨hsome, hdirectory⟩
    have hjoin : ∀ d, joinNames d names ≠ [] := by
      intro d
      obtain ⟨name, rest, rfl⟩ := List.exists_cons_of_ne_nil hsome
      exact joinNames_ne_nil (hnames name List.mem_cons_self).1
    cases directoryOnly with
    | false => exact ⟨_, [], (List.append_nil _).symm, hjoin _, Or.inl rfl⟩
    | true =>
      rw [hdirectory rfl]
      exact ⟨_, ['/'], joinNames_true hsome, hjoin _, rfl⟩

/-- Tokens that are not followed by segments take a single name, and perhaps the separator behind
it. -/
theorem takes_last_tokens {ts : List Token} (hclean : Clean directoryOnly [.tokens ts])
    (hnames : ∀ name ∈ names, IsName name) :
    Takes case directoryOnly [.tokens ts] (joinNames directory names) ↔
      MatchNames case [.tokens ts] names ∧ (directoryOnly = true → directory = true) := by
  have hts : ∀ c, Token.literal c ∈ ts → c ≠ '/' := hclean.ne_slash ts (List.mem_singleton_self _)
  simp only [Takes, MatchText, matchNames_tokens, closes_tokens]
  constructor
  · rintro ⟨middle, after, heq, hfill, hcloses⟩
    have hmiddle := Token.notMem_of_matchAll hts hfill.1
    cases names with
    | nil =>
      -- Only empty tokens fill the empty text, and nothing but a separator may follow them.
      obtain ⟨rfl, rfl⟩ := List.append_eq_nil_iff.mp heq.symm
      have hdirectory : directoryOnly = false := by simpa using hcloses
      rcases hclean.stars_apart ts (List.mem_singleton_self _)
        (Token.eq_star_of_matchAll_nil hfill.1) with rfl | rfl
      · exact absurd ((hclean.last_empty rfl).symm.trans hdirectory) (by decide)
      · exact absurd rfl (hfill.2 rfl)
    | cons name names =>
      obtain ⟨hname, hrest⟩ := List.forall_mem_cons.mp hnames
      rcases hcloses with ⟨rfl, hdirectory⟩ | rfl
      · rw [List.append_nil] at heq
        obtain ⟨rfl, rfl, -⟩ := joinNames_eq_of_notMem hmiddle heq
        exact ⟨⟨middle, [], rfl, hfill.1, by rw [MatchNames]⟩,
          fun h => absurd (h.symm.trans hdirectory) (by decide)⟩
      · obtain ⟨rfl, hback, hmore⟩ := (joinNames_eq_append_slash hname hmiddle).mp heq
        cases names with
        | nil =>
          exact ⟨⟨middle, [], rfl, hfill.1, by rw [MatchNames]⟩,
            fun _ => hmore.resolve_left fun h => h rfl⟩
        | cons next names =>
          exact absurd hback.symm (joinNames_ne_nil (hrest next List.mem_cons_self).1)
  · rintro ⟨⟨name, others, rfl, hmatch, hothers⟩, hdirectory⟩
    rw [MatchNames] at hothers
    subst hothers
    have hname := hnames name List.mem_cons_self
    cases directory with
    | true => exact ⟨name, ['/'], by simp [joinNames], ⟨hmatch, fun _ => hname.1⟩, Or.inr rfl⟩
    | false =>
      have hplain : directoryOnly = false := by simpa using hdirectory
      exact ⟨name, [], by simp [joinNames], ⟨hmatch, fun _ => hname.1⟩, Or.inl ⟨rfl, hplain⟩⟩

/-- A match that begins with the first name of a path takes whole components up to its end. -/
theorem takes_joinNames_iff {segments : List Segment} (hne : segments ≠ [])
    (hclean : Clean directoryOnly segments) (hnames : ∀ name ∈ names, IsName name) :
    Takes case directoryOnly segments (joinNames directory names) ↔
      MatchNames case segments names ∧ (directoryOnly = true → directory = true) := by
  fun_induction regexes segments generalizing names with
  | case1 => exact absurd rfl hne
  | case2 => rw [takes_last_globStar hnames, MatchNames]
  | case3 rest hrest ih =>
    rw [takes_globStar hrest, matchNames_globStar hrest]
    constructor
    · rintro ⟨dirs, back, heq, hdirs, htakes⟩
      obtain ⟨suffix, rfl, rfl⟩ := exists_eq_append_of_directories hnames hdirs heq
      have hsuffix := (List.forall_mem_append.mp hnames).2
      obtain ⟨hmatch, hdirectory⟩ := (ih hrest (hclean.tail hrest) hsuffix).mp htakes
      exact ⟨⟨dirs, suffix, rfl, hmatch⟩, hdirectory⟩
    · rintro ⟨⟨dirs, suffix, rfl, hmatch⟩, hdirectory⟩
      have hne : suffix ≠ [] := by
        rintro rfl
        exact not_matchNames_nil hrest hmatch
      obtain ⟨hdirs, hsuffix⟩ := List.forall_mem_append.mp hnames
      have htakes := (ih hrest (hclean.tail hrest) hsuffix).mpr ⟨hmatch, hdirectory⟩
      exact ⟨dirs, _, joinNames_append hne, hdirs, htakes⟩
  | case4 ts => exact takes_last_tokens hclean hnames
  | case5 ts rest hrest ih =>
    have hts : ∀ c, Token.literal c ∈ ts → c ≠ '/' := hclean.ne_slash ts List.mem_cons_self
    rw [takes_tokens hrest, matchNames_tokens]
    constructor
    · rintro ⟨front, back, heq, hfill, htakes⟩
      have hfront := Token.notMem_of_matchAll hts hfill.1
      cases names with
      | nil => exact absurd heq (by simp [joinNames])
      | cons name names =>
        obtain ⟨hname, hall⟩ := List.forall_mem_cons.mp hnames
        obtain ⟨rfl, rfl, -⟩ := (joinNames_eq_append_slash hname hfront).mp heq
        obtain ⟨hmatch, hdirectory⟩ := (ih hrest (hclean.tail hrest) hall).mp htakes
        exact ⟨⟨front, names, rfl, hfill.1, hmatch⟩, hdirectory⟩
    · rintro ⟨⟨name, others, rfl, hname, hmatch⟩, hdirectory⟩
      obtain ⟨hisName, hall⟩ := List.forall_mem_cons.mp hnames
      have hothers : others ≠ [] := by
        rintro rfl
        exact not_matchNames_nil hrest hmatch
      have htakes := (ih hrest (hclean.tail hrest) hall).mpr ⟨hmatch, hdirectory⟩
      exact ⟨name, _, joinNames_cons_of_ne_nil hothers, ⟨hname, fun _ => hisName.1⟩, htakes⟩

end Segment

namespace Glob

variable {case : CaseSensitivity} {directory : Bool} {names : List Text} {glob : Glob}

def ClassesListed (glob : Glob) : Prop :=
  ∀ ts, .tokens ts ∈ glob.segments → ∀ cls, .charClass cls ∈ ts → cls.isEmpty = false

theorem canMatch_iff (h : glob.segments ≠ []) : glob.canMatch = true ↔ glob.ClassesListed := by
  rw [canMatch, Bool.and_eq_true, Bool.not_eq_true', List.isEmpty_eq_false_iff, List.all_eq_true]
  constructor
  · rintro ⟨-, hall⟩ ts hts cls hcls
    have hsegment := hall _ hts
    rw [Segment.canMatch, List.all_eq_true] at hsegment
    simpa [Token.canMatch] using hsegment _ hcls
  · intro hlisted
    refine ⟨h, ?_⟩
    intro segment hsegment
    cases segment with
    | globStar => rfl
    | tokens ts =>
      rw [Segment.canMatch, List.all_eq_true]
      intro t ht
      cases t with
      | literal _ | star | anyChar => rfl
      | charClass cls => rw [Token.canMatch, hlisted ts hsegment cls ht]; rfl

/-- The glob matches a path by its components: the last one if the glob may stand at any depth, all
of them otherwise. -/
structure MatchesNames (case : CaseSensitivity) (glob : Glob) (directory : Bool)
    (names : List Text) : Prop where
  classes : glob.ClassesListed
  directory : glob.directoryOnly = true → directory = true
  floating : glob.anchored = false →
    ∃ ts name, glob.segments = [.tokens ts] ∧ names.getLast? = some name ∧
      Token.MatchAll case ts name
  anchored : glob.anchored = true → Segment.MatchNames case glob.segments names

/-- A match that may begin behind any separator begins with one of the names. -/
theorem exists_floating_iff {segments : List Segment} (hsegments : segments ≠ [])
    (hclean : Segment.Clean glob.directoryOnly segments) (hnames : ∀ name ∈ names, IsName name)
    (hfloats : glob.Floats) :
    (∃ before middle after, joinNames directory names = before ++ middle ++ after ∧
      glob.Opens before ∧ Segment.MatchText case segments middle ∧
      Segment.Closes glob.directoryOnly segments after) ↔
      (∃ dirs suffix, names = dirs ++ suffix ∧ Segment.MatchNames case segments suffix) ∧
        (glob.directoryOnly = true → directory = true) := by
  constructor
  · rintro ⟨before, middle, after, heq, hopens, hmiddle, hcloses⟩
    rw [List.append_assoc] at heq
    obtain ⟨dirs, suffix, rfl, hback⟩ : ∃ dirs suffix, names = dirs ++ suffix ∧
        middle ++ after = joinNames directory suffix := by
      rcases hopens with rfl | ⟨-, front, rfl⟩
      · exact ⟨[], names, rfl, heq.symm⟩
      · rw [List.append_assoc] at heq
        exact exists_eq_append_of_slash hnames heq
    have hsuffix := (List.forall_mem_append.mp hnames).2
    obtain ⟨hmatch, hdirectory⟩ := (Segment.takes_joinNames_iff hsegments hclean hsuffix).mp
      ⟨middle, after, hback.symm, hmiddle, hcloses⟩
    exact ⟨⟨dirs, suffix, rfl, hmatch⟩, hdirectory⟩
  · rintro ⟨⟨dirs, suffix, rfl, hmatch⟩, hdirectory⟩
    have hne : suffix ≠ [] := by
      rintro rfl
      exact Segment.not_matchNames_nil hsegments hmatch
    have hsuffix := (List.forall_mem_append.mp hnames).2
    obtain ⟨middle, after, heq, hmiddle, hcloses⟩ :=
      (Segment.takes_joinNames_iff hsegments hclean hsuffix).mpr ⟨hmatch, hdirectory⟩
    refine ⟨directories dirs, middle, after, ?_, ?_, hmiddle, hcloses⟩
    · rw [joinNames_append hne, heq, List.append_assoc]
    · rcases List.eq_nil_or_concat dirs with rfl | ⟨dirs, dir, rfl⟩
      · exact Or.inl rfl
      · exact Or.inr ⟨hfloats, directories dirs ++ dir, by simp [directories]⟩

theorem matches_iff_of_floating {ts : List Token}
    (hclean : Segment.Clean glob.directoryOnly [.tokens ts])
    (hsegments : glob.segments = [.tokens ts]) (hfloating : glob.anchored = false)
    (hnames : ∀ name ∈ names, IsName name) :
    glob.Matches case (joinNames directory names) ↔
      (∃ name, names.getLast? = some name ∧ Token.MatchAll case ts name) ∧
        (glob.directoryOnly = true → directory = true) := by
  have hcore : glob.core = [.tokens ts] := by rw [core, hsegments]
  rw [Matches, hcore, hsegments,
    exists_floating_iff (List.cons_ne_nil _ _) hclean hnames (Or.inr hfloating)]
  refine and_congr_left fun _ => ?_
  constructor
  · rintro ⟨dirs, suffix, rfl, hmatch⟩
    obtain ⟨name, others, rfl, hname, hothers⟩ := Segment.matchNames_tokens.mp hmatch
    rw [Segment.MatchNames] at hothers
    subst hothers
    exact ⟨name, by simp, hname⟩
  · rintro ⟨name, hlast, hname⟩
    obtain ⟨dirs, rfl⟩ := List.getLast?_eq_some_iff.mp hlast
    exact ⟨dirs, [name], rfl, Segment.matchNames_tokens.mpr
      ⟨name, [], rfl, hname, by rw [Segment.MatchNames]⟩⟩

/-- An anchored glob is matched against all the names, also if it begins with a `**`. -/
theorem matches_iff_of_anchored (hclean : Segment.Clean glob.directoryOnly glob.segments)
    (hne : glob.segments ≠ []) (hanchored : glob.anchored = true)
    (hnames : ∀ name ∈ names, IsName name) :
    glob.Matches case (joinNames directory names) ↔
      Segment.MatchNames case glob.segments names ∧
        (glob.directoryOnly = true → directory = true) := by
  by_cases hdeep : ∃ next rest, glob.segments = .globStar :: next :: rest
  · obtain ⟨next, rest, hsegments⟩ := hdeep
    have hcore : glob.core = next :: rest := by rw [core, hsegments]
    have hrest : next :: rest ≠ [] := List.cons_ne_nil next rest
    rw [hsegments] at hclean
    rw [Matches, hcore, hsegments]
    simp only [Segment.closes_cons hrest]
    rw [Segment.matchNames_globStar hrest]
    exact exists_floating_iff hrest (hclean.tail hrest) hnames (Or.inl ⟨next, rest, hsegments⟩)
  · have hcore : glob.core = glob.segments := core_eq_segments hdeep
    have hfloats : ¬ glob.Floats := not_floats hdeep hanchored
    rw [← Segment.takes_joinNames_iff hne hclean hnames, Matches, hcore]
    constructor
    · rintro ⟨before, middle, after, heq, hopens, hmiddle, hcloses⟩
      rcases hopens with rfl | ⟨hfloat, -⟩
      · exact ⟨middle, after, heq, hmiddle, hcloses⟩
      · exact absurd hfloat hfloats
    · rintro ⟨middle, after, heq, hmiddle, hcloses⟩
      exact ⟨[], middle, after, heq, Or.inl rfl, hmiddle, hcloses⟩

theorem matches_joinNames_iff (h : glob.IsParsed) (hnames : ∀ name ∈ names, IsName name) :
    glob.canMatch = true ∧ glob.Matches case (joinNames directory names) ↔
      glob.MatchesNames case directory names := by
  rw [canMatch_iff h.segments_ne_nil]
  cases hanchored : glob.anchored with
  | false =>
    obtain ⟨ts, hsegments⟩ := h.floating hanchored
    rw [matches_iff_of_floating (hsegments ▸ h.clean) hsegments hanchored hnames]
    constructor
    · rintro ⟨hlisted, ⟨name, hlast, hname⟩, hdirectory⟩
      exact ⟨hlisted, hdirectory, fun _ => ⟨ts, name, hsegments, hlast, hname⟩,
        fun hfalse => absurd (hanchored.symm.trans hfalse) (by decide)⟩
    · intro hmatch
      obtain ⟨ts', name, hsegments', hlast, hname⟩ := hmatch.floating hanchored
      obtain rfl : ts = ts' := by simpa using hsegments.symm.trans hsegments'
      exact ⟨hmatch.classes, ⟨name, hlast, hname⟩, hmatch.directory⟩
  | true =>
    rw [matches_iff_of_anchored h.clean h.segments_ne_nil hanchored hnames]
    constructor
    · rintro ⟨hlisted, hmatch, hdirectory⟩
      exact ⟨hlisted, hdirectory,
        fun hfalse => absurd (hanchored.symm.trans hfalse) (by decide), fun _ => hmatch⟩
    · intro hmatch
      exact ⟨hmatch.classes, hmatch.anchored hanchored, hmatch.directory⟩

end Glob

/-- A compiled matcher compares a path with its glob component by component. -/
theorem RegexMatcher.isMatch_iff_matchesNames {engine : Engine} {key : MatcherKey}
    (hpattern : key.pattern ≠ [])
    (hengine : ∀ r, (Glob.parse key.pattern).regex? = some r → engine key.case r = true)
    {names : List Text} (hne : names ≠ []) (hnames : ∀ name ∈ names, IsName name)
    (directory : Bool) :
    (compile key engine).isMatch (['/'].intercalate names ++ if directory then ['/'] else []) = true ↔
      (Glob.parse key.pattern).MatchesNames key.case directory names := by
  rw [← joinNames_eq_intercalate hne, compile, Glob.isMatch_ofGlob hengine,
    Glob.matches_joinNames_iff (Glob.isParsed_parse hpattern) hnames]

theorem RegexMatcher.isMatch_between_directories :
    (compile ⟨['a', '/', '*', '*', '/', 'b'], false, .insensitive⟩ .bounded).isMatch
      ['A', '/', 'x', '/', 'b'] = true := by
  have hparse : Glob.parse ['a', '/', '*', '*', '/', 'b'] =
      ⟨[.tokens [.literal 'a'], .globStar, .tokens [.literal 'b']], true, false⟩ := by
    decide +kernel
  have hengine : ∀ r, (Glob.parse ['a', '/', '*', '*', '/', 'b']).regex? = some r →
      Engine.bounded .insensitive r = true := by
    rw [hparse]
    intro r hr
    cases hr
    decide
  have hname : ∀ name ∈ [['A'], ['x'], ['b']], IsName name := by simp [IsName]
  have hfold : foldPoint 97 = foldPoint 65 := by decide +kernel
  refine (@isMatch_iff_matchesNames .bounded ⟨['a', '/', '*', '*', '/', 'b'], false, .insensitive⟩
    (by decide) hengine [['A'], ['x'], ['b']] (by decide) hname false).mpr ?_
  show (Glob.parse ['a', '/', '*', '*', '/', 'b']).MatchesNames _ _ _
  rw [hparse]
  refine ⟨?_, Bool.noConfusion, Bool.noConfusion, fun _ => ?_⟩
  · simp [Glob.ClassesListed]
  · simp [Segment.MatchNames, Token.MatchAll, Token.Admits, CaseSensitivity.Same, hfold]

end IgnoreRules
