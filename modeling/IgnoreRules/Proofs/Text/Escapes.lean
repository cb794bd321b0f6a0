import IgnoreRules.Proofs.Text.Blanks
import Mathlib.Data.List.Induction

/-! # Text with every character escaped

A backslash before each character leaves nothing that is special, and no escape without a character
behind it. A blank at the end is the one character that trimming still takes off, escaped or not.
-/

namespace IgnoreRules

namespace Text

def escape (text : Text) : Text := text.flatMap fun c => ['\\', c]

/-- The text with a space in place of its last character if that is a blank. -/
def spaceAtEnd (text : Text) : Text :=
  match text.getLast? with
  | some c => text.dropLast ++ [if isBlank c then ' ' else c]
  | none => []

variable {text : Text} {c : Char}

theorem escape_cons (c : Char) (text : Text) : escape (c :: text) = '\\' :: c :: escape text := rfl

theorem escape_concat (text : Text) (c : Char) : escape (text ++ [c]) = escape text ++ ['\\', c] :=
  List.flatMap_append

theorem spaceAtEnd_concat (text : Text) (c : Char) :
    spaceAtEnd (text ++ [c]) = text ++ [if isBlank c then ' ' else c] := by
  rw [spaceAtEnd, List.getLast?_concat, List.dropLast_concat]

theorem spaceAtEnd_ne_nil (h : text ≠ []) : spaceAtEnd text ≠ [] := by
  obtain ⟨front, last, hlast⟩ := (List.eq_nil_or_concat text).resolve_left h
  rw [hlast, List.concat_eq_append, spaceAtEnd_concat]
  simp

theorem slash_notMem_spaceAtEnd (h : '/' ∉ text) : '/' ∉ spaceAtEnd text := by
  rcases List.eq_nil_or_concat text with hnil | ⟨front, last, hlast⟩
  · rw [hnil]
    exact List.not_mem_nil
  · rw [hlast, List.concat_eq_append] at h ⊢
    rw [spaceAtEnd_concat]
    split <;> simp_all

theorem endsInEscape_concat (hc : c ≠ '\\') (text : Text) :
    endsInEscape (text ++ [c]) = false := by
  simp [endsInEscape, hc]

theorem endsInEscape_concat_backslash (text : Text) :
    endsInEscape (text ++ ['\\']) = !endsInEscape text := by
  have hrun : ((text ++ ['\\']).reverse.takeWhile (· = '\\')).length =
      (text.reverse.takeWhile (· = '\\')).length + 1 := by
    simp
  have hparity : ∀ n : ℕ, (n + 1) % 2 = 1 ↔ ¬ n % 2 = 1 := by
    intro n
    omega
  rw [endsInEscape, endsInEscape, hrun, ← decide_not]
  exact decide_eq_decide.mpr (hparity _)

/-- What ends in no escape has nothing to say about the end of what follows. -/
theorem endsInEscape_append {front : Text} (h : endsInEscape front = false) (rest : Text) :
    endsInEscape (front ++ rest) = endsInEscape rest := by
  induction rest using List.reverseRecOn with
  | nil => rw [List.append_nil, h]; rfl
  | append_singleton rest last ih =>
    rw [← List.append_assoc]
    by_cases hlast : last = '\\'
    · rw [hlast, endsInEscape_concat_backslash, endsInEscape_concat_backslash, ih]
    · rw [endsInEscape_concat hlast, endsInEscape_concat hlast]

theorem endsInEscape_append_cons (hc : c ≠ '\\') (front rest : Text) :
    endsInEscape (front ++ c :: rest) = endsInEscape rest := by
  have hsplit : front ++ c :: rest = (front ++ [c]) ++ rest := by simp
  rw [hsplit, endsInEscape_append (endsInEscape_concat hc front)]

theorem endsInEscape_cons (hc : c ≠ '\\') (rest : Text) :
    endsInEscape (c :: rest) = endsInEscape rest :=
  endsInEscape_append_cons hc [] rest

/-- An escape takes its character with it, even if that is another backslash. -/
theorem endsInEscape_escaped (c : Char) (rest : Text) :
    endsInEscape ('\\' :: c :: rest) = endsInEscape rest := by
  have hpair : endsInEscape ['\\', c] = false := by
    by_cases hc : c = '\\'
    · rw [hc]
      rfl
    · exact endsInEscape_concat hc ['\\']
  exact endsInEscape_append hpair rest

/-- Backslashes are escaped like all other characters, so the run at the end is even. -/
theorem endsInEscape_escape (text : Text) : endsInEscape (escape text) = false := by
  induction text using List.reverseRecOn with
  | nil => rfl
  | append_singleton text c ih =>
    have hpair : escape (text ++ [c]) = (escape text ++ ['\\']) ++ [c] := by
      rw [escape_concat, List.append_assoc]
      rfl
    rw [hpair]
    by_cases hc : c = '\\'
    · rw [hc, endsInEscape_concat_backslash, endsInEscape_concat_backslash, ih]
      rfl
    · exact endsInEscape_concat hc _

theorem isBlank_backslash : isBlank '\\' = false := by decide

theorem trimEnd_concat (hc : isBlank c = false) (text : Text) :
    trimEnd (text ++ [c]) = text ++ [c] := by
  have hstart : (text ++ [c]).reverse.dropWhile isBlank = (text ++ [c]).reverse := by
    rw [List.reverse_concat, List.dropWhile_cons_of_neg (by simp [hc])]
  rw [trimEnd, hstart, List.reverse_reverse]

def IsTrimmed (text : Text) : Prop := ∀ c, text.getLast? = some c → isBlank c = false

theorem isTrimmed_concat_iff : IsTrimmed (text ++ [c]) ↔ isBlank c = false := by
  simp [IsTrimmed]

theorem IsTrimmed.trimEnd_eq (h : IsTrimmed text) : trimEnd text = text := by
  rcases List.eq_nil_or_concat text with rfl | ⟨front, last, rfl⟩
  · rfl
  · rw [List.concat_eq_append] at h ⊢
    exact trimEnd_concat (isTrimmed_concat_iff.mp h) front

theorem exists_eq_append_blanks (text : Text) :
    ∃ kept blanks, text = kept ++ blanks ∧ IsTrimmed kept ∧ ∀ c ∈ blanks, isBlank c = true := by
  induction text using List.reverseRecOn with
  | nil => exact ⟨[], [], rfl, by simp [IsTrimmed], by simp⟩
  | append_singleton text c ih =>
    cases hc : isBlank c with
    | true =>
      obtain ⟨kept, blanks, rfl, hkept, hblanks⟩ := ih
      refine ⟨kept, blanks ++ [c], List.append_assoc .., hkept, ?_⟩
      simpa [or_imp, forall_and, hc] using hblanks
    | false =>
      exact ⟨text ++ [c], [], (List.append_nil _).symm, isTrimmed_concat_iff.mpr hc, by simp⟩

end Text

end IgnoreRules
