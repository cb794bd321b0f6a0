import IgnoreRules.Text.Blank
import Mathlib.Data.List.TakeWhile

/-! # Words up to blanks and case

Trimming takes off whatever blanks stand around a text, and does not care about the case of ASCII
letters, since no letter is a blank.
-/

namespace IgnoreRules

theorem isBlankPoint_eq_false {point : Nat} (hspace : 0x20 < point) (hnext : point < 0x85) :
    isBlankPoint point = false := by
  simp [isBlankPoint]
  omega

theorem isBlank_toLower (c : Char) : isBlank c.toLower = isBlank c := by
  unfold Char.toLower
  split
  · next hupper =>
    have hlow : 65 ≤ c.toNat := UInt32.le_iff_toNat_le.mp hupper.1
    have hhigh : c.toNat ≤ 90 := UInt32.le_iff_toNat_le.mp hupper.2
    have hshift : (c.val + ('a'.val - 'A'.val)).toNat = c.toNat + 32 := by
      have hdistance : ('a'.val - 'A'.val).toNat = 32 := rfl
      rw [UInt32.toNat_add, hdistance, Char.toNat_val, Nat.mod_eq_of_lt (by omega)]
    rw [isBlank, Char.toNat, hshift, isBlankPoint_eq_false (by omega) (by omega), isBlank,
      isBlankPoint_eq_false (by omega) (by omega)]
  · rfl

namespace Text

theorem trimEnd_append {text after : Text} (h : ∀ c ∈ after, isBlank c = true) :
    trimEnd (text ++ after) = trimEnd text := by
  have hreverse : ∀ c ∈ after.reverse, isBlank c = true := fun c hc => h c (List.mem_reverse.mp hc)
  rw [trimEnd, List.reverse_append, List.dropWhile_append_of_pos hreverse, trimEnd]

theorem trim_append {before text after : Text} (hbefore : ∀ c ∈ before, isBlank c = true)
    (hafter : ∀ c ∈ after, isBlank c = true) : trim (before ++ text ++ after) = trim text := by
  have hstart : trimStart (before ++ text ++ after) = (text ++ after).dropWhile isBlank := by
    rw [trimStart, List.append_assoc, List.dropWhile_append_of_pos hbefore]
  rw [trim, hstart, List.dropWhile_append, trim, trimStart]
  split
  · next hempty =>
    rw [List.isEmpty_iff.mp hempty, List.dropWhile_eq_nil_iff.mpr hafter]
  · exact trimEnd_append hafter

theorem lowerAscii_trimStart (text : Text) :
    lowerAscii (trimStart text) = trimStart (lowerAscii text) := by
  have hblank : isBlank ∘ Char.toLower = isBlank := funext isBlank_toLower
  rw [trimStart, trimStart, lowerAscii, lowerAscii, List.dropWhile_map, hblank]

theorem lowerAscii_trim (text : Text) : lowerAscii (trim text) = trim (lowerAscii text) := by
  have hend : ∀ text, lowerAscii (trimEnd text) = trimEnd (lowerAscii text) := by
    intro text
    have hreverse := lowerAscii_trimStart text.reverse
    rw [lowerAscii, lowerAscii, trimStart, trimStart, List.map_reverse] at hreverse
    rw [trimEnd, trimEnd, lowerAscii, lowerAscii, List.map_reverse, hreverse]
  rw [trim, trim, hend, lowerAscii_trimStart]

inductive SameWord : Text → Text → Prop
  | intro {before core after before' core' after' : Text}
      (hblank : ∀ c ∈ before ++ after ++ before' ++ after', isBlank c = true)
      (hcore : lowerAscii core = lowerAscii core') :
      SameWord (before ++ core ++ after) (before' ++ core' ++ after')

theorem SameWord.lowerAscii_trim_eq {first second : Text} (h : SameWord first second) :
    lowerAscii (trim first) = lowerAscii (trim second) := by
  obtain ⟨hblank, hcore⟩ := h
  simp only [List.mem_append] at hblank
  rw [trim_append (fun c hc => hblank c (by simp [hc])) (fun c hc => hblank c (by simp [hc])),
    trim_append (fun c hc => hblank c (by simp [hc])) (fun c hc => hblank c (by simp [hc])),
    lowerAscii_trim, lowerAscii_trim, hcore]

theorem lowerAscii_eq_nil_iff {text : Text} : lowerAscii text = [] ↔ text = [] :=
  List.map_eq_nil_iff

theorem SameWord.trim_eq_nil_iff {first second : Text} (h : SameWord first second) :
    trim first = [] ↔ trim second = [] := by
  rw [← lowerAscii_eq_nil_iff, h.lowerAscii_trim_eq, lowerAscii_eq_nil_iff]

end Text

end IgnoreRules
