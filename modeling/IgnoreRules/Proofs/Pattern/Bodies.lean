import IgnoreRules.Pattern
import IgnoreRules.Proofs.Glob.DanglingEscape

/-! # Lines and the bodies of their patterns

The escape at the end is looked for in the line as it stands, before the `!`, the blanks and the
escape of a marker are taken off. None of these steps brings up an escape at the end that was not
there before, and none undoes what an earlier one did at the other end.
-/

namespace IgnoreRules

namespace Pattern

open Text

variable {text kept blanks line : Text}

/-! ## The end of a body -/

/-- Nothing is left to be done at the end of the text. An escape has its character, and if that is
a blank, it is a space. -/
structure EndsFirmly (text : Text) : Prop where
  not_endsInEscape : endsInEscape text = false
  blank_escaped : ∀ front c, text = front ++ [c] → isBlank c = true →
    c = ' ' ∧ endsInEscape front = true

/-- Of blanks at the end one space is kept if the first of them was escaped, and else nothing. -/
theorem trimBody_append (hkept : IsTrimmed kept) (hblanks : ∀ c ∈ blanks, isBlank c = true) :
    trimBody (kept ++ blanks) =
      if blanks ≠ [] ∧ endsInEscape kept = true then kept ++ [' '] else kept := by
  rw [trimBody, trimEnd_append hblanks, hkept.trimEnd_eq]
  cases blanks with
  | nil => simp
  | cons c rest => simp

theorem trimBody_eq_self (h : IsTrimmed text) : trimBody text = text := by
  have hnone : ∀ c ∈ ([] : Text), isBlank c = true := by simp
  simpa using trimBody_append h hnone

theorem trimBody_eq_nil_iff : trimBody text = [] ↔ ∀ c ∈ text, isBlank c = true := by
  obtain ⟨kept, blanks, rfl, hkept, hblanks⟩ := exists_eq_append_blanks text
  rw [trimBody_append hkept hblanks]
  rcases List.eq_nil_or_concat kept with rfl | ⟨front, last, rfl⟩
  · have hnil : endsInEscape [] = false := rfl
    simpa [hnil] using hblanks
  · rw [List.concat_eq_append] at hkept ⊢
    have hlast := isTrimmed_concat_iff.mp hkept
    refine iff_of_false (by split <;> simp) fun hall => ?_
    have hblank := hall last (by simp)
    exact absurd (hblank.symm.trans hlast) (by decide)

theorem endsFirmly_trimBody (h : endsInEscape text = false) : EndsFirmly (trimBody text) := by
  obtain ⟨kept, blanks, rfl, hkept, hblanks⟩ := exists_eq_append_blanks text
  rw [trimBody_append hkept hblanks]
  split
  · next hescaped =>
    refine ⟨endsInEscape_concat (by decide) kept, fun front c heq _ => ?_⟩
    obtain ⟨rfl, hspace⟩ := List.append_inj' heq rfl
    exact ⟨(List.singleton_inj.mp hspace).symm, hescaped.2⟩
  · next hescaped =>
    constructor
    · cases blanks with
      | nil => rwa [List.append_nil] at h
      | cons c rest => simpa using hescaped
    · rintro front c rfl hblank
      exact absurd (hblank.symm.trans (isTrimmed_concat_iff.mp hkept)) (by decide)

/-! ## The start of a body -/

theorem dropMarkerEscape_eq_nil_iff : dropMarkerEscape text = [] ↔ text = [] := by
  fun_cases dropMarkerEscape text with
  | case1 | case2 => simp
  | case3 => rfl

theorem not_isPrefix_dropMarkerEscape (text : Text) :
    ¬ ['\\', '!'] <+: dropMarkerEscape text ∧ ¬ ['\\', '#'] <+: dropMarkerEscape text := by
  fun_cases dropMarkerEscape text with
  | case1 | case2 => simp
  | case3 text hbang hcomment =>
    constructor
    · rintro ⟨rest, rfl⟩
      exact hbang rest rfl
    · rintro ⟨rest, rfl⟩
      exact hcomment rest rfl

theorem EndsFirmly.of_escaped {c : Char} {rest : Text} (hc : c ≠ '\\') (hblank : isBlank c = false)
    (h : EndsFirmly ('\\' :: c :: rest)) : EndsFirmly (c :: rest) := by
  have hsame : ∀ text, endsInEscape (c :: text) = endsInEscape ('\\' :: c :: text) := fun text => by
    rw [endsInEscape_escaped, endsInEscape_cons hc]
  refine ⟨(hsame rest).trans h.not_endsInEscape, fun front last heq hlast => ?_⟩
  cases front with
  | nil =>
    obtain rfl : c = last := (List.cons.inj heq).1
    exact absurd (hlast.symm.trans hblank) (by decide)
  | cons d front =>
    obtain ⟨rfl, rfl⟩ := List.cons.inj heq
    rw [hsame]
    exact h.blank_escaped ('\\' :: c :: front) last rfl hlast

theorem EndsFirmly.dropMarkerEscape (h : EndsFirmly text) :
    EndsFirmly (dropMarkerEscape text) := by
  fun_cases Pattern.dropMarkerEscape text with
  | case1 | case2 => exact h.of_escaped (by decide) (by decide)
  | case3 => exact h

/-! ## Lines -/

def bodyOf (line : Text) : Text := Pattern.dropMarkerEscape (trimBody (splitNegation line).2)

theorem ofLine?_eq (origin : Text) :
    ofLine? origin =
      if isIdle (dropMark origin) = true ∨ bodyOf (dropMark origin) = [] then none
      else some ⟨origin, bodyOf (dropMark origin), (splitNegation (dropMark origin)).1⟩ := by
  cases hidle : isIdle (dropMark origin) <;>
    simp [ofLine?, bodyOf, hidle]

theorem splitNegation_cases (line : Text) :
    (∃ rest, line = '!' :: rest ∧ splitNegation line = (true, rest)) ∨
      line.head? ≠ some '!' ∧ splitNegation line = (false, line) := by
  fun_cases splitNegation line with
  | case1 rest => exact Or.inl ⟨rest, rfl, rfl⟩
  | case2 text hbang =>
    refine Or.inr ⟨fun hhead => ?_, rfl⟩
    obtain ⟨rest, rfl⟩ := List.head?_eq_some_iff.mp hhead
    exact hbang rest rfl

theorem endsInEscape_splitNegation (line : Text) :
    endsInEscape (splitNegation line).2 = endsInEscape line := by
  rcases splitNegation_cases line with ⟨rest, rfl, hsplit⟩ | ⟨-, hsplit⟩
  · rw [hsplit, endsInEscape_cons (by decide)]
  · rw [hsplit]

theorem isIdle_eq_true_iff :
    isIdle line = true ↔
      (∀ c ∈ line, isBlank c = true) ∨ line.head? = some '#' ∨ endsInEscape line = true := by
  simp [isIdle, or_assoc]

theorem bodyOf_eq_nil_iff : bodyOf line = [] ↔ ∀ c ∈ (splitNegation line).2, isBlank c = true := by
  rw [bodyOf, dropMarkerEscape_eq_nil_iff, trimBody_eq_nil_iff]

structure IsBody (body : Text) : Prop extends EndsFirmly body where
  ne_nil : body ≠ []
  marker_plain : ¬ ['\\', '!'] <+: body ∧ ¬ ['\\', '#'] <+: body

theorem isBody_bodyOf (hline : endsInEscape line = false) (hne : bodyOf line ≠ []) :
    IsBody (bodyOf line) where
  toEndsFirmly :=
    (endsFirmly_trimBody ((endsInEscape_splitNegation line).trans hline)).dropMarkerEscape
  ne_nil := hne
  marker_plain := not_isPrefix_dropMarkerEscape _

/-- Without a `!` the body is empty only if the line is blank. -/
theorem isIdle_or_bodyOf_eq_nil_iff :
    isIdle line = true ∨ bodyOf line = [] ↔
      (∀ c ∈ line, isBlank c = true) ∨ line.head? = some '#' ∨ endsInEscape line = true ∨
        ∃ blanks, line = '!' :: blanks ∧ ∀ c ∈ blanks, isBlank c = true := by
  rw [isIdle_eq_true_iff, bodyOf_eq_nil_iff, or_assoc, or_assoc]
  rcases splitNegation_cases line with ⟨rest, rfl, hsplit⟩ | ⟨hhead, hsplit⟩
  · rw [hsplit]
    simp
  · have hnone : ¬ ∃ blanks, line = '!' :: blanks ∧ ∀ c ∈ blanks, isBlank c = true := by
      rintro ⟨blanks, rfl, -⟩
      exact hhead rfl
    simp only [hsplit, hnone, or_false]
    tauto

/-- A line carries no pattern if it is blank, a comment, ends in an escape with nothing behind it,
or has no more than blanks behind a `!`. In any other line a `!` makes the pattern negative, and the
body is fit to be read as it stands: whatever the reader would make of a backslash with nothing
behind it, it never comes to one. -/
theorem carried_by_line (origin : Text) :
    (ofLine? origin = none ↔
      (∀ c ∈ dropMark origin, isBlank c = true) ∨ (dropMark origin).head? = some '#' ∨
        endsInEscape (dropMark origin) = true ∨
        ∃ blanks, dropMark origin = '!' :: blanks ∧ ∀ c ∈ blanks, isBlank c = true) ∧
    ∀ pattern, ofLine? origin = some pattern →
      (pattern.negative = true ↔ (dropMark origin).head? = some '!') ∧ IsBody pattern.body ∧
        ∀ dangling, Lexeme.ofBodyWith dangling pattern.body = Lexeme.ofBody pattern.body := by
  rw [ofLine?_eq]
  generalize dropMark origin = line
  constructor
  · rw [← isIdle_or_bodyOf_eq_nil_iff]
    split <;> simp_all
  · intro pattern hpattern
    split at hpattern
    · cases hpattern
    · next hcarries =>
      obtain ⟨hidle, hne⟩ := not_or.mp hcarries
      have hend : endsInEscape line = false :=
        Bool.eq_false_iff.mpr fun hescape => hidle (isIdle_eq_true_iff.mpr (.inr (.inr hescape)))
      obtain rfl := Option.some.inj hpattern
      have hbody := isBody_bodyOf hend hne
      refine ⟨?_, hbody, fun dangling => Lexeme.ofBodyWith_eq (Or.inr hbody.not_endsInEscape)⟩
      rcases splitNegation_cases line with ⟨rest, rfl, hsplit⟩ | ⟨hhead, hsplit⟩
      · simp [hsplit]
      · simp [hsplit, hhead]

/-- The mark at the start, the `!` and the last blank go, and the escaped `#` loses its escape. -/
theorem carried_by_line_marked :
    let line := [byteOrderMark, '!', '\\', '#', '\\', '\\', '\\', '\t', ' ']
    let body := ['#', '\\', '\\', '\\', ' ']
    ofLine? line = some ⟨line, body, true⟩ ∧ IsBody body ∧
      Lexeme.ofBodyWith [] body = Lexeme.ofBody body := by
  intro line body
  have hpattern : ofLine? line = some ⟨line, body, true⟩ := by decide
  obtain ⟨-, hbody, hread⟩ := (carried_by_line line).2 _ hpattern
  exact ⟨hpattern, hbody, hread []⟩

end Pattern

end IgnoreRules
