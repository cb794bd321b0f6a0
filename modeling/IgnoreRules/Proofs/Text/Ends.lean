import IgnoreRules.Proofs.Text.Pieces
import Mathlib.Data.List.Forall2

/-! # Pieces at the ends

A separator at the start or at the end of what was cut leaves an empty piece there. Such a piece can
be told from one between two separators.
-/

namespace IgnoreRules

variable {α β : Type}

def withoutOpening : List (List α) → List (List α)
  | [] :: next :: others => next :: others
  | parts => parts

def withoutClosing (parts : List (List α)) : List (List α) :=
  (withoutOpening parts.reverse).reverse

/-- The pieces that no separator at an end accounts for. -/
def withoutEnds (parts : List (List α)) : List (List α) := withoutOpening (withoutClosing parts)

section Ends

variable {first last : List α} {parts : List (List α)}

theorem withoutOpening_nil_cons (h : parts ≠ []) : withoutOpening ([] :: parts) = parts := by
  cases parts with
  | nil => exact absurd rfl h
  | cons next others => rfl

theorem withoutOpening_cons (h : first ≠ []) (others : List (List α)) :
    withoutOpening (first :: others) = first :: others := by
  cases first with
  | nil => exact absurd rfl h
  | cons a as => rfl

theorem withoutClosing_concat_nil (h : parts ≠ []) : withoutClosing (parts ++ [[]]) = parts := by
  rw [withoutClosing, List.reverse_concat, withoutOpening_nil_cons (by simpa using h),
    List.reverse_reverse]

theorem withoutClosing_concat (h : last ≠ []) (parts : List (List α)) :
    withoutClosing (parts ++ [last]) = parts ++ [last] := by
  rw [withoutClosing, List.reverse_concat, withoutOpening_cons h, List.reverse_cons,
    List.reverse_reverse]

theorem withoutOpening_subset (parts : List (List α)) : withoutOpening parts ⊆ parts := by
  fun_cases withoutOpening parts with
  | case1 next others => exact List.subset_cons_self _ _
  | case2 => exact List.Subset.refl _

theorem withoutEnds_subset (parts : List (List α)) : withoutEnds parts ⊆ parts := by
  intro part hpart
  have hclosing := List.mem_reverse.mp (withoutOpening_subset _ hpart)
  exact List.mem_reverse.mp (withoutOpening_subset _ hclosing)

theorem nil_mem_withoutOpening_iff :
    [] ∈ withoutOpening parts ↔ parts = [[]] ∨ [] ∈ parts.tail := by
  cases parts with
  | nil => simp [withoutOpening]
  | cons first others =>
    by_cases hfirst : first = []
    · cases others <;> simp [hfirst, withoutOpening]
    · rw [withoutOpening_cons hfirst]
      simp [hfirst, Ne.symm hfirst]

/-- What is empty between the ends is kept, and so is what is empty and alone. -/
theorem nil_mem_withoutEnds_iff :
    [] ∈ withoutEnds parts ↔ parts = [[]] ∨ parts = [[], []] ∨ [] ∈ parts.tail.dropLast := by
  rw [withoutEnds, nil_mem_withoutOpening_iff]
  cases parts with
  | nil => simp [withoutClosing, withoutOpening]
  | cons first rest =>
    rcases List.eq_nil_or_concat rest with rfl | ⟨middle, last, rfl⟩
    · cases first <;> simp [withoutClosing, withoutOpening]
    rw [List.concat_eq_append, ← List.cons_append]
    by_cases hlast : last = []
    · rw [hlast, withoutClosing_concat_nil (List.cons_ne_nil first middle)]
      simp
    · rw [withoutClosing_concat hlast]
      simp [hlast, Ne.symm hlast, List.append_eq_singleton_iff]

end Ends

theorem forall₂_withoutOpening {firsts : List (List α)} {seconds : List (List β)}
    (h : List.Forall₂ (fun first second => first = [] ↔ second = []) firsts seconds) :
    List.Forall₂ (fun first second => first = [] ↔ second = []) (withoutOpening firsts)
      (withoutOpening seconds) := by
  cases h with
  | nil => exact .nil
  | @cons first second firsts seconds hhead hrest =>
    by_cases hempty : first = []
    · rw [hempty, hhead.mp hempty]
      cases hrest with
      | nil => exact .cons (iff_of_true rfl rfl) .nil
      | cons hnext hothers => exact .cons hnext hothers
    · rw [withoutOpening_cons hempty, withoutOpening_cons (mt hhead.mpr hempty)]
      exact .cons hhead hrest

theorem forall₂_withoutEnds {firsts : List (List α)} {seconds : List (List β)}
    (h : List.Forall₂ (fun first second => first = [] ↔ second = []) firsts seconds) :
    List.Forall₂ (fun first second => first = [] ↔ second = []) (withoutEnds firsts)
      (withoutEnds seconds) := by
  have hclosing := forall₂_withoutOpening (List.forall₂_reverse_iff.mpr h)
  exact forall₂_withoutOpening (List.forall₂_reverse_iff.mpr hclosing)

section Separator

variable [DecidableEq α] {a : α} {as part : List α}

theorem pieces_tail_eq (a : α) (as : List α) :
    pieces (· = a) (if as.head? = some a then as.tail else as) =
      withoutOpening (pieces (· = a) as) := by
  split
  · next hhead =>
    obtain ⟨rest, rfl⟩ := List.head?_eq_some_iff.mp hhead
    have hopening : pieces (· = a) (a :: rest) = [] :: pieces (· = a) rest :=
      pieces_cons_of_true (by simp) rest
    rw [List.tail_cons, hopening, withoutOpening_nil_cons (pieces_ne_nil _ _)]
  · next hhead =>
    cases as with
    | nil => rfl
    | cons b rest =>
      have hb : decide (b = a) = false := by simpa using hhead
      obtain ⟨piece, others, -, hcons⟩ := @exists_pieces_cons_of_false α (· = a) b hb rest
      rw [hcons, withoutOpening_cons (List.cons_ne_nil b piece)]

theorem pieces_dropLast_eq (a : α) (as : List α) :
    pieces (· = a) (if as.getLast? = some a then as.dropLast else as) =
      withoutClosing (pieces (· = a) as) := by
  split
  · next hlast =>
    obtain ⟨front, rfl⟩ := List.getLast?_eq_some_iff.mp hlast
    have hclosing : pieces (· = a) (front ++ [a]) = pieces (· = a) front ++ [[]] :=
      pieces_append_cons (by simp) front []
    rw [List.dropLast_concat, hclosing, withoutClosing_concat_nil (pieces_ne_nil _ _)]
  · next hlast =>
    obtain ⟨front, last, hpieces⟩ :=
      (List.eq_nil_or_concat (pieces (· = a) as)).resolve_left (pieces_ne_nil _ _)
    rw [List.concat_eq_append] at hpieces
    rw [hpieces]
    by_cases hempty : last = []
    · have hend : (pieces (· = a) as).getLast? = some [] := by
        rw [hpieces, hempty, List.getLast?_concat]
      rcases getLast?_of_getLast?_pieces hend with rfl | ⟨b, hb, hsep⟩
      · rw [← hpieces]
        rfl
      · exact absurd (by rw [hb, of_decide_eq_true hsep]) hlast
    · rw [withoutClosing_concat hempty]

/-- A piece between the ends stands between two separators, and what stands there is a piece. -/
theorem mem_tail_dropLast_pieces_iff (ha : a ∉ part) :
    part ∈ (pieces (· = a) as).tail.dropLast ↔ a :: part ++ [a] <:+: as := by
  constructor
  · generalize hpieces : pieces (· = a) as = parts
    intro hpart
    induction parts generalizing as with
    | nil => cases hpart
    | cons first others ih =>
      rcases eq_or_exists_of_pieces_cons hpieces with ⟨-, rfl⟩ | ⟨b, back, hb, rfl, hback⟩
      · cases hpart
      obtain rfl : b = a := of_decide_eq_true hb
      rw [List.tail_cons] at hpart
      cases others with
      | nil => cases hpart
      | cons next later =>
        have hlater : later ≠ [] := by
          rintro rfl
          cases hpart
        rw [List.dropLast_cons_of_ne_nil hlater] at hpart
        rcases List.mem_cons.mp hpart with rfl | hpart
        · rcases eq_or_exists_of_pieces_cons hback with ⟨-, hnil⟩ | ⟨c, back', hc, rfl, -⟩
          · exact absurd hnil hlater
          · obtain rfl : c = b := of_decide_eq_true hc
            exact ⟨first, back', by simp⟩
        · have hinside : b :: part ++ [b] <:+: back := ih hback hpart
          exact hinside.trans ((List.suffix_cons b back).trans (List.suffix_append first _)).isInfix
  · rintro ⟨front, back, rfl⟩
    have hpart : pieces (· = a) part = [part] :=
      pieces_eq_singleton fun c hc => decide_eq_false fun heq => ha (heq ▸ hc)
    have hpieces : pieces (· = a) (front ++ (a :: part ++ [a]) ++ back) =
        pieces (· = a) front ++ ([part] ++ pieces (· = a) back) := by
      have hopening : pieces (· = a) (front ++ a :: (part ++ a :: back)) =
          pieces (· = a) front ++ pieces (· = a) (part ++ a :: back) :=
        pieces_append_cons (by simp) _ _
      have hclosing : pieces (· = a) (part ++ a :: back) =
          pieces (· = a) part ++ pieces (· = a) back :=
        pieces_append_cons (by simp) _ _
      rw [hclosing, hpart] at hopening
      rw [← hopening]
      simp
    have hback : pieces (· = a) back ≠ [] := pieces_ne_nil _ _
    rw [hpieces, List.tail_append_of_ne_nil (pieces_ne_nil _ _),
      List.dropLast_append_of_ne_nil (by simp), List.dropLast_append_of_ne_nil hback]
    simp

end Separator

end IgnoreRules
