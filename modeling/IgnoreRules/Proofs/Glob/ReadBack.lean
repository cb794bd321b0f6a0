import IgnoreRules.Proofs.Glob.Language
import IgnoreRules.Proofs.Regex.ReadBack

/-! # The source text of a glob says what the glob says

A glob can hold any characters, also such as no body yields. The source text of its expression is
still read in one way only, and what it then finds is the language of the glob.
-/

namespace IgnoreRules

def Bracket.Holds (case : CaseSensitivity) : Bracket → Char → Prop
  | .union negated members, c => ClassMember.Lists case members c ↔ negated = false
  | .meet negated members other, c =>
    (ClassMember.Lists case members c ∧ other.Holds case c) ↔ negated = false

def Leaf.Test (case : CaseSensitivity) : Leaf → Char → Prop
  | .literal a, c => case.Same a c
  | .any, _ => True
  | .bracket b, c => b.Holds case c

/-- The source text has a reading that is found in the text. -/
def SourceFinds (case : CaseSensitivity) (source text : Text) : Prop :=
  ∃ tree, Reads source tree ∧ (tree.span (Leaf.Test case)).Finds text

section

variable {case : CaseSensitivity}

theorem lists_cons {m : ClassMember} {members : List ClassMember} {c : Char} :
    ClassMember.Lists case (m :: members) c ↔
      (∃ d, case.Same d c ∧ m.Holds d) ∨ ClassMember.Lists case members c := by
  simp [ClassMember.Lists]

theorem lists_slash_cons {members : List ClassMember} {c : Char} :
    ClassMember.Lists case (.char '/' :: members) c ↔
      c = '/' ∨ ClassMember.Lists case members c := by
  rw [lists_cons]
  simp [ClassMember.Holds, CaseSensitivity.same_slash]

/-- A class is read as its members without `/`, or as all characters but `/` and its members. -/
theorem CharClass.holds_bracket {cls : CharClass} {c : Char} :
    cls.bracket.Holds case c ↔ cls.Admits case c := by
  have hnone : ¬ ClassMember.Lists case [] c := by simp [ClassMember.Lists]
  unfold bracket Admits
  cases cls.negated with
  | true =>
    simp only [if_true, Bracket.Holds, lists_slash_cons, Bool.true_eq_false, iff_false, not_or]
  | false =>
    simp only [Bool.false_eq_true, if_false, Bracket.Holds, lists_slash_cons, hnone, or_false,
      Bool.true_eq_false, iff_false, iff_true]
    exact and_comm

theorem Atom.test_leaf (a : Atom) : a.leaf.Test case = a.Test case := by
  funext c
  cases a with
  | literal d => exact propext test_literal.symm
  | any => simp [leaf, Leaf.Test, Atom.Test, Atom.accepts]
  | oneOf cls => exact propext (CharClass.holds_bracket.trans test_oneOf.symm)

theorem Regex.span_leaf (r : Regex Atom) :
    (r.map Atom.leaf).span (Leaf.Test case) = r.span (Atom.Test case) := by
  rw [span_map]
  exact congrArg r.span (funext Atom.test_leaf)

end

def Regex.IsTidyPiece (r : Regex Atom) : Prop := r.IsPiece ∧ r.IsTidy

theorem Regex.concat_ne_empty {rs : List (Regex Atom)} (h : ∀ r ∈ rs, r.IsTidyPiece)
    (hne : rs ≠ []) : concat rs ≠ .empty := by
  match rs with
  | [] => exact absurd rfl hne
  | [r] =>
    rintro rfl
    exact (h .empty (List.mem_singleton_self _)).1
  | _ :: _ :: _ => simp [concat]

theorem Regex.isTidy_concat {rs : List (Regex Atom)} (h : ∀ r ∈ rs, r.IsTidyPiece) :
    (concat rs).IsTidy := by
  fun_induction concat rs with
  | case1 => trivial
  | case2 r => exact (h r (List.mem_singleton_self r)).2
  | case3 r rs hne ih =>
    obtain ⟨⟨hpiece, htidy⟩, hrest⟩ := List.forall_mem_cons.mp h
    exact ⟨hpiece, htidy, ih hrest, concat_ne_empty hrest hne⟩

theorem isReadable_anyButSlash : CharClass.anyButSlash.IsReadable :=
  ⟨by decide, by simp [CharClass.anyButSlash]⟩

namespace Token

def IsReadable : Token → Prop
  | .charClass cls => cls.IsReadable
  | _ => True

theorem isTidyPiece_regex {t : Token} (h : t.IsReadable) : t.regex.IsTidyPiece := by
  cases t with
  | literal c => exact ⟨trivial, trivial⟩
  | star | anyChar => exact ⟨trivial, isReadable_anyButSlash⟩
  | charClass cls => exact ⟨trivial, h⟩

end Token

namespace Segment

def IsReadable : Segment → Prop
  | .globStar => True
  | .tokens ts => ∀ t ∈ ts, t.IsReadable

theorem isTidyPiece_component {ts : List Token} (h : ∀ t ∈ ts, t.IsReadable) :
    ∀ r ∈ component ts, r.IsTidyPiece := by
  intro r hr
  unfold component at hr
  split at hr
  · obtain rfl := List.mem_singleton.mp hr
    exact ⟨trivial, isReadable_anyButSlash⟩
  · obtain ⟨t, ht, rfl⟩ := List.mem_map.mp hr
    exact Token.isTidyPiece_regex (h t ht)

theorem isTidyPiece_regexes {segments : List Segment} (h : ∀ s ∈ segments, s.IsReadable) :
    ∀ r ∈ regexes segments, r.IsTidyPiece := by
  have hslash : (Regex.char '/').IsTidyPiece := ⟨trivial, trivial⟩
  fun_induction regexes segments with
  | case1 => simp
  | case2 =>
    intro r hr
    obtain rfl := List.mem_singleton.mp hr
    exact ⟨trivial, trivial⟩
  | case3 rest hne ih =>
    have hany : anyComponents.IsTidyPiece :=
      ⟨trivial, trivial, isReadable_anyButSlash, trivial, by decide⟩
    exact List.forall_mem_cons.mpr ⟨hany, ih (List.forall_mem_cons.mp h).2⟩
  | case4 ts => exact isTidyPiece_component (h _ (List.mem_singleton_self _))
  | case5 ts rest hne ih =>
    obtain ⟨hts, hrest⟩ := List.forall_mem_cons.mp h
    intro r hr
    rcases List.mem_append.mp hr with hr | hr
    · exact isTidyPiece_component hts r hr
    · rcases List.mem_cons.mp hr with rfl | hr
      · exact hslash
      · exact ih hrest r hr

end Segment

namespace Glob

def RangesOrdered (glob : Glob) : Prop :=
  ∀ ts, .tokens ts ∈ glob.segments → ∀ cls, .charClass cls ∈ ts → ∀ lo hi,
    .range lo hi ∈ cls.members → lo ≤ hi

theorem isReadable_segments {glob : Glob} (hcan : glob.canMatch = true)
    (hordered : glob.RangesOrdered) : ∀ s ∈ glob.segments, s.IsReadable := by
  intro s hs
  cases s with
  | globStar => trivial
  | tokens ts =>
    intro t ht
    cases t with
    | literal _ | star | anyChar => trivial
    | charClass cls =>
      rw [canMatch, Bool.and_eq_true, List.all_eq_true] at hcan
      have htokens := hcan.2 _ hs
      rw [Segment.canMatch, List.all_eq_true] at htokens
      refine ⟨by simpa [Token.canMatch] using htokens _ ht, ?_⟩
      intro m hm
      cases m with
      | char _ => trivial
      | range lo hi => exact hordered ts hs cls ht lo hi hm

theorem isTidyPiece_regexes {glob : Glob} (hcan : glob.canMatch = true)
    (hordered : glob.RangesOrdered) : ∀ r ∈ glob.regexes, r.IsTidyPiece := by
  have hcore : ∀ s ∈ glob.core, s.IsReadable :=
    fun s hs => isReadable_segments hcan hordered s (mem_segments_of_mem_core hs)
  have hbeginning : ∀ r ∈ glob.beginning.1, r.IsTidyPiece := by
    intro r hr
    rcases glob.beginning_cases with ⟨-, h⟩ | ⟨-, h⟩ | ⟨-, h⟩
    · rw [h] at hr
      rcases List.mem_cons.mp hr with rfl | hr
      · exact ⟨trivial, trivial⟩
      · obtain rfl := List.mem_singleton.mp hr
        exact ⟨trivial, trivial, trivial, trivial, by decide⟩
    · rw [h] at hr
      obtain rfl := List.mem_singleton.mp hr
      exact ⟨trivial, trivial⟩
    · rw [h] at hr
      obtain rfl := List.mem_singleton.mp hr
      exact ⟨trivial, trivial, trivial⟩
  have hending : ∀ r ∈ glob.ending, r.IsTidyPiece := by
    intro r hr
    unfold ending at hr
    split at hr
    · rcases List.mem_cons.mp hr with rfl | hr
      · exact ⟨trivial, trivial⟩
      · obtain rfl := List.mem_singleton.mp hr
        exact ⟨trivial, trivial⟩
    · split at hr
      · exact absurd hr List.not_mem_nil
      · obtain rfl := List.mem_singleton.mp hr
        exact ⟨trivial, trivial, trivial, trivial, trivial, by decide⟩
  intro r hr
  rw [regexes_eq] at hr
  rcases List.mem_append.mp hr with hr | hr
  · rcases List.mem_append.mp hr with hr | hr
    · exact hbeginning r hr
    · exact Segment.isTidyPiece_regexes hcore r hr
  · exact hending r hr

/-- The source text of a glob that can match is read in one way, as the expression of the glob, and
finds exactly what the glob matches. -/
theorem source_faithful {glob : Glob} (hcan : glob.canMatch = true)
    (hordered : glob.RangesOrdered) :
    ∃ r, glob.regex? = some r ∧
      (∀ tree, Reads r.source tree ↔ tree = r.map Atom.leaf) ∧
      ∀ case text, SourceFinds case r.source text ↔ glob.Matches case text := by
  have htidy : (Regex.concat glob.regexes).IsTidy :=
    Regex.isTidy_concat (isTidyPiece_regexes hcan hordered)
  refine ⟨.concat glob.regexes, if_pos hcan, Regex.reads_source_iff htidy, ?_⟩
  intro case text
  simp only [SourceFinds, Regex.reads_source_iff htidy, exists_eq_left, Regex.span_leaf]
  rw [← glob.finds_regexes]
  simp only [Span.Finds, Regex.span_concat]

theorem source_faithful_punctuation : ∃ tree, tree =
      .seq .textStart (.seq (.atom (.literal '(')) (.seq (.atom (.bracket
        (.meet false [.range '+' '0'] (.union true [.char '/'])))) (.seq (.atom (.literal '/'))
        .textEnd))) ∧
    ∀ other, Reads ['^', '\\', '(', '[', '\\', 'x', '{', '2', 'B', '}', '-', '0', '&', '&', '[', '^',
      '/', ']', ']', '/', '$'] other ↔ other = tree := by
  have hordered : RangesOrdered
      ⟨[.tokens [.literal '(', .charClass ⟨false, [.range '+' '0']⟩]], true, true⟩ := by
    intro ts hts cls hcls lo hi hrange
    obtain rfl : ts = _ := Segment.tokens.inj (List.mem_singleton.mp hts)
    obtain rfl : cls = ⟨false, [.range '+' '0']⟩ := by simpa using hcls
    obtain ⟨rfl, rfl⟩ : lo = '+' ∧ hi = '0' := by simpa using hrange
    decide
  obtain ⟨r, hr, hreads, -⟩ := source_faithful (by decide) hordered
  cases hr
  exact ⟨_, rfl, hreads⟩

end Glob

end IgnoreRules
