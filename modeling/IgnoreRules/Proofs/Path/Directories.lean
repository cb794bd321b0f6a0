import IgnoreRules.Proofs.Glob.Components
import IgnoreRules.Proofs.Path.Ancestors
import IgnoreRules.Proofs.Path.Outcomes

/-! # Which directories stand above a path

The ancestors of a path are all of its proper prefixes that end in a separator, but for a separator
at the very start. They are found by byte offsets as well as by characters, they are as many as the
path has components above its last one, and what accepts a path accepts the directories above it.
-/

namespace IgnoreRules

/-! ## Cutting at byte offsets -/

namespace Text

def byteCount : Text → Nat
  | [] => 0
  | c :: text => c.utf8Size + byteCount text

def slashOffsets : Text → List Nat
  | [] => []
  | c :: rest =>
    let later := (slashOffsets rest).map (· + c.utf8Size)
    if c = '/' then 0 :: later else later

/-- The first bytes of the text, so many of them, if they end where a character ends. -/
def firstBytes? : Text → Nat → Option Text
  | _, 0 => some []
  | [], _ + 1 => none
  | c :: rest, count =>
    if c.utf8Size ≤ count then (firstBytes? rest (count - c.utf8Size)).map (c :: ·) else none

/-- The ancestors, cut off behind each `/` that stands neither at the first nor at the last byte. -/
def ancestorsByOffset (path : Text) : List Text :=
  ((slashOffsets path).filter fun offset => offset ≠ 0 ∧ offset ≠ byteCount path - 1).filterMap
    fun offset => firstBytes? path (offset + 1)

variable {c : Char} {text : Text}

theorem byteCount_cons (c : Char) (text : Text) :
    byteCount (c :: text) = c.utf8Size + byteCount text := rfl

theorem byteCount_pos (h : text ≠ []) : 0 < byteCount text := by
  obtain ⟨c, rest, rfl⟩ := List.exists_cons_of_ne_nil h
  rw [byteCount_cons]
  exact Nat.add_pos_left c.utf8Size_pos _

/-- Behind the first character all offsets are moved by its size. -/
theorem firstBytes?_cons (c : Char) (rest : Text) (offset : Nat) :
    firstBytes? (c :: rest) (offset + c.utf8Size + 1) =
      (firstBytes? rest (offset + 1)).map (c :: ·) := by
  have hsize : offset + c.utf8Size + 1 - c.utf8Size = offset + 1 := by omega
  rw [firstBytes?, if_pos (by omega), hsize]
  exact fun h => by cases h

/-- The last byte of what stands behind the first character is the last byte of all. -/
theorem offset_ne_last_iff {offset : Nat} (h : text ≠ []) :
    offset + c.utf8Size ≠ byteCount (c :: text) - 1 ↔ offset ≠ byteCount text - 1 := by
  have hpos := byteCount_pos h
  rw [byteCount_cons]
  omega

/-- Cutting behind the separators of the rest, and not at its last byte. -/
theorem filterMap_firstBytes?_later (c : Char) (rest : Text) (keep : Nat → Bool)
    (hkeep : ∀ offset ∈ slashOffsets rest,
      keep (offset + c.utf8Size) = decide (offset ≠ byteCount rest - 1)) :
    (((slashOffsets rest).map (· + c.utf8Size)).filter keep).filterMap
        (fun offset => firstBytes? (c :: rest) (offset + 1)) =
      (((slashOffsets rest).filter fun offset => offset ≠ byteCount rest - 1).filterMap
        fun offset => firstBytes? rest (offset + 1)).map (c :: ·) := by
  have hsame : (slashOffsets rest).filter (keep ∘ (· + c.utf8Size)) =
      (slashOffsets rest).filter fun offset => offset ≠ byteCount rest - 1 :=
    List.filter_congr hkeep
  rw [List.filter_map, hsame, List.filterMap_map, List.map_filterMap]
  congr 1
  funext offset
  exact firstBytes?_cons c rest offset

theorem directoryPrefixes_eq_byOffset (text : Text) :
    directoryPrefixes text =
      ((slashOffsets text).filter fun offset => offset ≠ byteCount text - 1).filterMap
        fun offset => firstBytes? text (offset + 1) := by
  induction text with
  | nil => rfl
  | cons c rest ih =>
    by_cases hrest : rest = []
    · subst hrest
      by_cases hc : c = '/'
      · subst hc
        decide
      · simp [directoryPrefixes, slashOffsets, hc]
    · have hlater := filterMap_firstBytes?_later c rest
        (fun offset => decide (offset ≠ byteCount (c :: rest) - 1))
        (fun offset _ => decide_eq_decide.mpr (offset_ne_last_iff hrest))
      rw [← ih] at hlater
      by_cases hc : c = '/'
      · subst hc
        have hpos := byteCount_pos hrest
        have hfirst : decide (0 ≠ byteCount ('/' :: rest) - 1) = true := by
          rw [byteCount_cons, decide_eq_true_eq]
          have hone : '/'.utf8Size = 1 := by decide
          omega
        have hcut : firstBytes? ('/' :: rest) (0 + 1) = some ['/'] := by
          simp [firstBytes?, show '/'.utf8Size = 1 from by decide]
        rw [slashOffsets, if_pos rfl, List.filter_cons, if_pos hfirst, List.filterMap_cons, hcut,
          hlater]
        simp [directoryPrefixes, hrest]
      · rw [slashOffsets, if_neg hc, hlater]
        simp [directoryPrefixes, hc]

/-- In bytes or in characters, a path is cut at the same places. -/
theorem ancestorsByOffset_eq (path : Text) : ancestorsByOffset path = ancestors path := by
  cases path with
  | nil => rfl
  | cons c rest =>
    have hsize : 0 < c.utf8Size := c.utf8Size_pos
    have hlater := filterMap_firstBytes?_later c rest
      (fun offset => decide (offset ≠ 0 ∧ offset ≠ byteCount (c :: rest) - 1)) (by
        intro offset hoffset
        have hrest : rest ≠ [] := by
          rintro rfl
          cases hoffset
        rw [decide_eq_decide, offset_ne_last_iff hrest]
        exact and_iff_right (by omega))
    rw [ancestors, directoryPrefixes_eq_byOffset, ← hlater, ancestorsByOffset, slashOffsets]
    by_cases hc : c = '/'
    · rw [if_pos hc, List.filter_cons, if_neg (by simp)]
    · rw [if_neg hc]

end Text

/-! ## The prefixes that end in a separator -/

theorem mem_directoryPrefixes_iff {text q : Text} :
    q ∈ directoryPrefixes text ↔
      ∃ front back, back ≠ [] ∧ text = front ++ '/' :: back ∧ q = front ++ ['/'] := by
  induction text generalizing q with
  | nil => simp [directoryPrefixes]
  | cons c rest ih =>
    have hlonger : q ∈ (directoryPrefixes rest).map (c :: ·) ↔
        ∃ front back, back ≠ [] ∧ rest = front ++ '/' :: back ∧ q = c :: front ++ ['/'] := by
      simp only [List.mem_map, ih]
      constructor
      · rintro ⟨r, ⟨front, back, hback, hrest, rfl⟩, rfl⟩
        exact ⟨front, back, hback, hrest, rfl⟩
      · rintro ⟨front, back, hback, hrest, rfl⟩
        exact ⟨_, ⟨front, back, hback, hrest, rfl⟩, rfl⟩
    have hmem : q ∈ directoryPrefixes (c :: rest) ↔
        (c = '/' ∧ rest ≠ [] ∧ q = ['/']) ∨ q ∈ (directoryPrefixes rest).map (c :: ·) := by
      simp only [directoryPrefixes]
      split
      · next h => simp [h.1, h.2]
      · next h => simp only [← and_assoc, h, false_and, false_or]
    rw [hmem, hlonger]
    constructor
    · rintro (⟨rfl, hrest, rfl⟩ | ⟨front, back, hback, rfl, rfl⟩)
      · exact ⟨[], rest, hrest, rfl, rfl⟩
      · exact ⟨c :: front, back, hback, rfl, rfl⟩
    · rintro ⟨front, back, hback, htext, rfl⟩
      cases front with
      | nil =>
        obtain ⟨rfl, rfl⟩ := List.cons.inj htext
        exact Or.inl ⟨rfl, hback, rfl⟩
      | cons first front =>
        obtain ⟨rfl, rfl⟩ := List.cons.inj htext
        exact Or.inr ⟨front, back, hback, rfl, rfl⟩

theorem mem_ancestors_iff {path q : Text} :
    q ∈ ancestors path ↔ ∃ front back, front ≠ [] ∧ back ≠ [] ∧ path = front ++ '/' :: back ∧
      q = front ++ ['/'] := by
  cases path with
  | nil => simp [ancestors]
  | cons c rest =>
    simp only [ancestors, List.mem_map, mem_directoryPrefixes_iff]
    constructor
    · rintro ⟨r, ⟨front, back, hback, rfl, rfl⟩, rfl⟩
      exact ⟨c :: front, back, List.cons_ne_nil c front, hback, rfl, rfl⟩
    · rintro ⟨front, back, hfront, hback, hpath, rfl⟩
      obtain ⟨first, front, rfl⟩ := List.exists_cons_of_ne_nil hfront
      obtain ⟨rfl, rfl⟩ := List.cons.inj hpath
      exact ⟨_, ⟨front, back, hback, rfl, rfl⟩, rfl⟩

theorem mem_ancestors_iff_isPrefix {path q : Text} :
    q ∈ ancestors path ↔ q <+: path ∧ q ≠ path ∧ q.getLast? = some '/' ∧ q ≠ ['/'] := by
  rw [mem_ancestors_iff]
  constructor
  · rintro ⟨front, back, hfront, hback, rfl, rfl⟩
    refine ⟨⟨back, by simp⟩, ?_, List.getLast?_concat, ?_⟩
    · intro hall
      exact hback (by simpa using hall.symm)
    · intro hlone
      exact hfront (by simpa using hlone)
  · rintro ⟨⟨back, rfl⟩, hproper, hlast, hlone⟩
    obtain ⟨front, rfl⟩ := List.getLast?_eq_some_iff.mp hlast
    refine ⟨front, back, ?_, ?_, by simp, rfl⟩
    · rintro rfl
      exact hlone rfl
    · rintro rfl
      exact hproper (by simp)

theorem pairwise_length_directoryPrefixes (text : Text) :
    (directoryPrefixes text).Pairwise fun q q' => q.length < q'.length := by
  induction text with
  | nil => exact .nil
  | cons c rest ih =>
    have hlonger : ((directoryPrefixes rest).map (c :: ·)).Pairwise
        fun q q' => q.length < q'.length :=
      List.pairwise_map.mpr (ih.imp fun h => Nat.succ_lt_succ h)
    simp only [directoryPrefixes]
    split
    · refine List.pairwise_cons.mpr ⟨fun q hq => ?_, hlonger⟩
      obtain ⟨r, hr, rfl⟩ := List.mem_map.mp hq
      have hpos := List.length_pos_iff.mpr (ne_nil_of_mem_directoryPrefixes hr)
      simpa using hpos
    · exact hlonger

theorem pairwise_length_ancestors (path : Text) :
    (ancestors path).Pairwise fun q q' => q.length < q'.length := by
  cases path with
  | nil => exact .nil
  | cons c rest =>
    exact List.pairwise_map.mpr
      ((pairwise_length_directoryPrefixes rest).imp fun h => Nat.succ_lt_succ h)

/-! ## Counting components -/

theorem length_directoryPrefixes (text : Text) :
    (directoryPrefixes text).length = text.dropLast.count '/' := by
  induction text with
  | nil => rfl
  | cons c rest ih =>
    by_cases hrest : rest = []
    · simp [hrest, directoryPrefixes]
    · rw [List.dropLast_cons_of_ne_nil hrest, List.count_cons, ← ih]
      by_cases hc : c = '/' <;> simp [directoryPrefixes, hc, hrest]

theorem count_slash_dropLast_joinNames (directory : Bool) {names : List Text}
    (hnames : ∀ name ∈ names, IsName name) :
    (joinNames directory names).dropLast.count '/' = names.length - 1 := by
  induction names with
  | nil => rfl
  | cons name names ih =>
    obtain ⟨hname, hrest⟩ := List.forall_mem_cons.mp hnames
    have hzero : name.count '/' = 0 := List.count_eq_zero_of_not_mem hname.2
    cases names with
    | nil =>
      have hlast : (name.dropLast).count '/' = 0 :=
        List.count_eq_zero_of_not_mem fun h => hname.2 (List.dropLast_subset name h)
      cases directory <;> simp [joinNames, hzero, hlast]
    | cons next names =>
      have hmore : joinNames directory (next :: names) ≠ [] :=
        joinNames_ne_nil (hrest next List.mem_cons_self).1
      rw [joinNames_cons_of_ne_nil (List.cons_ne_nil next names),
        List.dropLast_append_of_ne_nil (List.cons_ne_nil '/' _),
        List.dropLast_cons_of_ne_nil hmore, List.count_append, List.count_cons_self, ih hrest,
        hzero]
      simp

/-- The last component stands below all others. -/
theorem length_ancestors_joinNames {directory : Bool} {names : List Text}
    (hnames : ∀ name ∈ names, IsName name) :
    (ancestors (joinNames directory names)).length = names.length - 1 := by
  rw [← count_slash_dropLast_joinNames directory hnames]
  cases hpath : joinNames directory names with
  | nil => rfl
  | cons c rest =>
    have hc : c ≠ '/' := by
      rintro rfl
      cases names with
      | nil => cases hpath
      | cons name names =>
        obtain ⟨hname, -⟩ := List.forall_mem_cons.mp hnames
        obtain ⟨first, tail, rfl⟩ := List.exists_cons_of_ne_nil hname.1
        rw [joinNames, List.cons_append] at hpath
        exact hname.2 (by rw [(List.cons.inj hpath).1]; exact List.mem_cons_self)
    rw [ancestors, List.length_map, length_directoryPrefixes]
    by_cases hrest : rest = []
    · simp [hrest]
    · rw [List.dropLast_cons_of_ne_nil hrest, List.count_cons_of_ne hc]

/-! ## Accepted directories -/

/-- A directory on the way to a path has no component that the path does not have. -/
theorem Path.componentFault?_eq_none_of_prefix {front back : Text}
    (h : componentFault? (front ++ '/' :: back) (front ++ '/' :: back) = none) :
    componentFault? (front ++ ['/']) (front ++ ['/']) = none := by
  obtain ⟨hroot, hdots, hclimb⟩ := componentFault?_eq_none_iff.mp h
  have hpath : pieces (· = '/') (front ++ '/' :: back) =
      pieces (· = '/') front ++ pieces (· = '/') back := pieces_append_cons rfl front back
  have hdirectory : pieces (· = '/') (front ++ ['/']) = pieces (· = '/') front ++ [[]] :=
    pieces_append_cons rfl front []
  obtain ⟨first, others, hfront⟩ := List.exists_cons_of_ne_nil (pieces_ne_nil (· = '/') front)
  refine componentFault?_eq_none_iff.mpr ⟨fun hslash => ?_, ?_, ?_⟩
  · exact hroot (hslash.trans ⟨back, by simp⟩)
  · rw [DotsFirst, hpath, hfront] at hdots
    rw [DotsFirst, hdirectory, hfront]
    exact hdots
  · rw [hpath] at hclimb
    rw [hdirectory]
    intro hmem
    rcases List.mem_append.mp hmem with hmem | hmem
    · exact hclimb (List.mem_append_left _ hmem)
    · cases List.mem_singleton.mp hmem

theorem Path.fault?_posix_eq_none_iff {allow : Bool} {input : Text} :
    fault? ⟨allow, .posix⟩ input = none ↔ allow = true ∨ componentFault? input input = none := by
  cases allow with
  | true => exact iff_of_true rfl (Or.inl rfl)
  | false => exact (or_iff_right Bool.false_ne_true).symm

namespace RelativePath

theorem exists_parse_ancestor {allow : Bool} {input q : Text} {path : RelativePath}
    (h : parse ⟨allow, .posix⟩ input = .ok path) (hq : q ∈ ancestors input) :
    ∃ step, parse ⟨allow, .posix⟩ q = .ok step ∧ step.text = q := by
  obtain ⟨-, hfault, -⟩ := parse_eq_ok_iff.mp h
  obtain ⟨front, back, -, -, rfl, rfl⟩ := mem_ancestors_iff.mp hq
  have hne : front ++ ['/'] ≠ [] := by simp
  have hsound : Path.fault? ⟨allow, .posix⟩ (front ++ ['/']) = none := by
    rw [Path.fault?_posix_eq_none_iff] at hfault ⊢
    exact hfault.imp_right Path.componentFault?_eq_none_of_prefix
  exact ⟨⟨front ++ ['/'], hne⟩, parse_eq_ok_iff.mpr ⟨hne, hsound, rfl⟩, rfl⟩

end RelativePath

/-- The ancestors of a path are its proper prefixes that end in `/`, but for a lone `/`, the shorter
before the longer, whether offsets are counted in characters or in bytes. What stands before one of
them are the ancestors of that one. Where `/` alone separates, each of them is accepted as it is if
the path is. There is one less than the path has components, with or without a `/` at its end. -/
theorem ancestors_exact (path : Text) :
    (∀ q, q ∈ ancestors path ↔ q <+: path ∧ q ≠ path ∧ q.getLast? = some '/' ∧ q ≠ ['/']) ∧
      (ancestors path).Pairwise (fun q q' => q.length < q'.length) ∧
      Text.ancestorsByOffset path = ancestors path ∧
      (∀ before q after, ancestors path = before ++ q :: after → ancestors q = before) ∧
      (∀ allow accepted, RelativePath.parse ⟨allow, .posix⟩ path = .ok accepted →
        ∀ q ∈ ancestors path, ∃ step, RelativePath.parse ⟨allow, .posix⟩ q = .ok step ∧
          step.text = q) ∧
      ∀ directory names, (∀ name ∈ names, IsName name) → path = joinNames directory names →
        (ancestors path).length = names.length - 1 := by
  refine ⟨fun q => mem_ancestors_iff_isPrefix, pairwise_length_ancestors path,
    Text.ancestorsByOffset_eq path, fun before q after => ancestors_of_eq_append, ?_, ?_⟩
  · intro allow accepted haccepted q hq
    exact RelativePath.exists_parse_ancestor haccepted hq
  · intro directory names hnames hpath
    rw [hpath]
    exact length_ancestors_joinNames hnames

/-- A directory two levels down, with a component that takes two bytes. -/
theorem ancestors_exact_three_levels :
    let path : Text := ['a', '/', 'é', '/', 'b', '/']
    ancestors path = [['a', '/'], ['a', '/', 'é', '/']] ∧
      Text.ancestorsByOffset path = ancestors path ∧
      ancestors ['a', '/', 'é', '/'] = [['a', '/']] ∧
      (∃ step, RelativePath.parse (.strict .posix) ['a', '/', 'é', '/'] = .ok step ∧
        step.text = ['a', '/', 'é', '/']) ∧
      (ancestors path).length = 2 := by
  have hancestors : ancestors ['a', '/', 'é', '/', 'b', '/'] =
      [['a', '/'], ['a', '/', 'é', '/']] := by decide
  obtain ⟨-, -, hbytes, hbefore, haccepts, hcount⟩ := ancestors_exact ['a', '/', 'é', '/', 'b', '/']
  have hnames : ∀ name ∈ [['a'], ['é'], ['b']], IsName name := by
    simp [IsName]
  exact ⟨hancestors, hbytes, hbefore [['a', '/']] _ [] hancestors,
    haccepts false ⟨['a', '/', 'é', '/', 'b', '/'], by decide⟩ rfl _ (by rw [hancestors]; simp),
    hcount true [['a'], ['é'], ['b']] hnames rfl⟩

example : ancestors ['/', 'a', '/', '/', 'b'] = [['/', 'a', '/'], ['/', 'a', '/', '/']] := by decide

end IgnoreRules
