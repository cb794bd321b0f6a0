import IgnoreRules.Proofs.Text.Pieces

/-! # Lines of joined texts

Texts joined by a line feed have the lines of both. Lines joined by a carriage return and a line
feed are found again, unless one of them was no single line or the last one ends in the mark that
is taken off.
-/

namespace IgnoreRules

namespace Text

theorem lines_append_lineFeed (front back : Text) :
    lines (front ++ '\n' :: back) = lines front ++ lines back := by
  have hpieces : pieces (· = '\n') (front ++ '\n' :: back) =
      pieces (· = '\n') front ++ pieces (· = '\n') back :=
    pieces_append_cons (by decide) front back
  rw [lines, hpieces, List.map_append]
  rfl

theorem lines_eq_singleton {line : Text} (h : '\n' ∉ line) :
    lines line = [if line.getLast? = some '\r' then line.dropLast else line] := by
  have hpieces : pieces (· = '\n') line = [line] :=
    pieces_eq_singleton fun c hc => decide_eq_false fun heq => h (heq ▸ hc)
  rw [lines, hpieces, List.map_singleton]

theorem lines_intercalate {all : List Text} (hne : all ≠ []) (h : ∀ line ∈ all, '\n' ∉ line)
    (hlast : ∀ line, all.getLast? = some line → line.getLast? ≠ some '\r') :
    lines (['\r', '\n'].intercalate all) = all := by
  induction all with
  | nil => exact absurd rfl hne
  | cons line rest ih =>
    obtain ⟨hline, hrest⟩ := List.forall_mem_cons.mp h
    cases rest with
    | nil => rw [List.intercalate_singleton, lines_eq_singleton hline, if_neg (hlast line rfl)]
    | cons next rest =>
      have hreturn : '\n' ∉ line ++ ['\r'] := by simp [hline]
      have hjoin : ['\r', '\n'].intercalate (line :: next :: rest) =
          line ++ ['\r'] ++ '\n' :: ['\r', '\n'].intercalate (next :: rest) := by
        rw [List.intercalate_cons_cons]
        simp
      rw [hjoin, lines_append_lineFeed, lines_eq_singleton hreturn, if_pos (by simp),
        List.dropLast_concat, ih (List.cons_ne_nil next rest) hrest
          (by simpa only [List.getLast?_cons_cons] using hlast)]
      rfl

end Text

end IgnoreRules
