import IgnoreRules.Glob.Parser
import IgnoreRules.Proofs.Pattern.Bodies

/-! # Lines that say the same

Blanks at the end of a line are taken off together with those already there, and a marker is the
same character to a glob whether it is escaped or not.
-/

namespace IgnoreRules

namespace Text

variable {line blanks : Text}

theorem endsInEscape_blanks (h : ∀ c ∈ blanks, isBlank c = true) : endsInEscape blanks = false := by
  rcases List.eq_nil_or_concat blanks with rfl | ⟨front, last, rfl⟩
  · rfl
  · rw [List.concat_eq_append] at h ⊢
    refine endsInEscape_concat ?_ front
    rintro rfl
    exact absurd ((h '\\' (by simp)).symm.trans isBlank_backslash) (by decide)

/-- Blanks behind a text do not open it with anything else than a blank. -/
theorem head?_append_blanks (h : ∀ c ∈ blanks, isBlank c = true) {c : Char}
    (hc : isBlank c = false) (line : Text) :
    (line ++ blanks).head? = some c ↔ line.head? = some c := by
  cases line with
  | cons d rest => rfl
  | nil =>
    refine iff_of_false (fun hhead => ?_) (by simp)
    have hblank := h c (List.mem_of_head? hhead)
    exact absurd (hblank.symm.trans hc) (by decide)

theorem IsTrimmed.tail {c : Char} (h : IsTrimmed (c :: line)) : IsTrimmed line := by
  intro d hd
  exact h d (by rw [List.getLast?_cons, hd]; rfl)

end Text

namespace Pattern

open Text

variable {line text blanks : Text}

/-! ## Blanks at the end -/

theorem dropMark_append_blanks (h : ∀ c ∈ blanks, isBlank c = true) (line : Text) :
    dropMark (line ++ blanks) = dropMark line ++ blanks := by
  cases line with
  | cons c rest =>
    rw [List.cons_append, dropMark, dropMark]
    split <;> rfl
  | nil =>
    cases blanks with
    | nil => rfl
    | cons c rest =>
      refine if_neg fun hmark => ?_
      have hhead := (head?_append_blanks h (by decide : isBlank byteOrderMark = false) []).mp
        (congrArg some hmark)
      cases hhead

theorem splitNegation_append_blanks (h : ∀ c ∈ blanks, isBlank c = true) (line : Text) :
    splitNegation (line ++ blanks) =
      ((splitNegation line).1, (splitNegation line).2 ++ blanks) := by
  rcases splitNegation_cases line with ⟨rest, rfl, hsplit⟩ | ⟨hhead, hsplit⟩
  · rw [hsplit]
    rfl
  · rcases splitNegation_cases (line ++ blanks) with ⟨rest, heq, -⟩ | ⟨-, hsplit'⟩
    · have hbang : (line ++ blanks).head? = some '!' := by rw [heq]; rfl
      exact absurd ((head?_append_blanks h (by decide) line).mp hbang) hhead
    · rw [hsplit', hsplit]

theorem endsInEscape_append_blanks (h : ∀ c ∈ blanks, isBlank c = true)
    (hline : endsInEscape line = false) : endsInEscape (line ++ blanks) = false :=
  (endsInEscape_append hline blanks).trans (endsInEscape_blanks h)

theorem isIdle_append_blanks (h : ∀ c ∈ blanks, isBlank c = true)
    (hline : endsInEscape line = false) : isIdle (line ++ blanks) = isIdle line := by
  have hall : (∀ c ∈ line ++ blanks, isBlank c = true) ↔ ∀ c ∈ line, isBlank c = true := by
    simpa [or_imp, forall_and] using fun _ => h
  rw [Bool.eq_iff_iff, isIdle_eq_true_iff, isIdle_eq_true_iff, hall,
    head?_append_blanks h (by decide), endsInEscape_append_blanks h hline, hline]

theorem trimBody_append_blanks (h : ∀ c ∈ blanks, isBlank c = true)
    (htext : endsInEscape text = false) : trimBody (text ++ blanks) = trimBody text := by
  obtain ⟨kept, inner, rfl, hkept, hinner⟩ := exists_eq_append_blanks text
  have hblanks : ∀ c ∈ inner ++ blanks, isBlank c = true := by
    simpa [or_imp, forall_and] using ⟨hinner, h⟩
  rw [List.append_assoc, trimBody_append hkept hblanks, trimBody_append hkept hinner]
  cases inner with
  | nil =>
    rw [List.append_nil] at htext
    simp [htext]
  | cons c rest => simp

theorem bodyOf_append_blanks (h : ∀ c ∈ blanks, isBlank c = true)
    (hline : endsInEscape line = false) : bodyOf (line ++ blanks) = bodyOf line := by
  rw [← endsInEscape_splitNegation] at hline
  rw [bodyOf, splitNegation_append_blanks h, trimBody_append_blanks h hline, bodyOf]

theorem endsInEscape_dropMark (line : Text) : endsInEscape (dropMark line) = endsInEscape line := by
  fun_cases dropMark line with
  | case1 rest => exact (endsInEscape_cons (by decide) rest).symm
  | case2 | case3 => rfl

def meaning (pattern : Pattern) : Text × Bool := (pattern.body, pattern.negative)

theorem meaning_append_blanks (h : ∀ c ∈ blanks, isBlank c = true)
    (hline : endsInEscape line = false) :
    (ofLine? (line ++ blanks)).map meaning = (ofLine? line).map meaning := by
  rw [← endsInEscape_dropMark] at hline
  rw [ofLine?_eq, ofLine?_eq, dropMark_append_blanks h, isIdle_append_blanks h hline,
    bodyOf_append_blanks h hline, splitNegation_append_blanks h]
  split <;> rfl

/-! ## Escaped markers -/

/-- To a glob the markers are characters like others, with or without their escape. -/
theorem parse_dropMarkerEscape (text : Text) :
    Glob.parse (dropMarkerEscape text) = Glob.parse text := by
  rw [Glob.parse, Glob.parse]
  congr 1
  fun_cases dropMarkerEscape text with
  | case1 rest | case2 rest =>
    rw [Lexeme.ofBody_escaped (by decide)]
    exact Lexeme.ofBody_literal (by decide) (by decide) (by decide) (by decide) (by decide) rest
  | case3 => rfl

theorem isTrimmed_splitNegation_dropMark (h : IsTrimmed line) :
    IsTrimmed (splitNegation (dropMark line)).2 := by
  have hmark : IsTrimmed (dropMark line) := by
    fun_cases dropMark line with
    | case1 rest => exact h.tail
    | case2 | case3 => exact h
  rcases splitNegation_cases (dropMark line) with ⟨rest, heq, hsplit⟩ | ⟨-, hsplit⟩
  · rw [heq] at hmark
    rw [hsplit]
    exact hmark.tail
  · rwa [hsplit]

/-- Blanks at the end of a line do not change what its pattern says, unless they come to stand
behind a backslash that has nothing to escape yet. Where there are none, the pattern has the glob of
the line without its mark and its `!`, be there an escaped marker or not. -/
theorem blanks_and_escapes_immaterial :
    (∀ line blanks, endsInEscape line = false → (∀ c ∈ blanks, isBlank c = true) →
      (ofLine? (line ++ blanks)).map meaning = (ofLine? line).map meaning) ∧
    ∀ line pattern, IsTrimmed line → ofLine? line = some pattern →
      Glob.parse pattern.body = Glob.parse (splitNegation (dropMark line)).2 := by
  refine ⟨fun line blanks hline h => meaning_append_blanks h hline, ?_⟩
  intro line pattern hline hpattern
  rw [ofLine?_eq] at hpattern
  split at hpattern
  · cases hpattern
  · obtain rfl := Option.some.inj hpattern
    rw [bodyOf, parse_dropMarkerEscape, trimBody_eq_self (isTrimmed_splitNegation_dropMark hline)]

/-- The escaped space stays, the other blanks go, and the escaped `#` is read like a plain one. -/
theorem blanks_and_escapes_immaterial_marked :
    let line : Text := [byteOrderMark, '!', '\\', '#', '*', '\\', ' ']
    (ofLine? (line ++ ['\t', '\u3000'])).map meaning = some (['#', '*', '\\', ' '], true) ∧
      Glob.parse ['#', '*'] = Glob.parse ['\\', '#', '*'] := by
  intro line
  have hblanks : ∀ c ∈ ['\t', '\u3000'], isBlank c = true := by
    simp only [List.forall_mem_cons]
    exact ⟨by decide, by decide, List.forall_mem_nil _⟩
  have htrimmed : IsTrimmed (['!', '\\', '#'] ++ ['*']) := isTrimmed_concat_iff.mpr (by decide)
  have hsame := blanks_and_escapes_immaterial.1 line ['\t', '\u3000'] (by decide) hblanks
  have hpattern : ofLine? ['!', '\\', '#', '*'] =
      some ⟨['!', '\\', '#', '*'], ['#', '*'], true⟩ := by decide
  exact ⟨hsame.trans (by decide), blanks_and_escapes_immaterial.2 _ _ htrimmed hpattern⟩

end Pattern

end IgnoreRules
