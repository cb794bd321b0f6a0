import IgnoreRules.Text.Basic
import Mathlib.Data.List.Infix

/-! # Pieces between separators

A piece is a part of what was cut and holds no separator. The last piece is empty only if nothing
or a separator ends what was cut.
-/

namespace IgnoreRules

variable {α : Type} {isSeparator : α → Bool}

theorem pieces_cons_of_true {a : α} (ha : isSeparator a = true) (as : List α) :
    pieces isSeparator (a :: as) = [] :: pieces isSeparator as := by
  simp [pieces, cut, ha]

theorem exists_pieces_cons_of_false {a : α} (ha : isSeparator a = false) (as : List α) :
    ∃ piece others, pieces isSeparator as = piece :: others ∧
      pieces isSeparator (a :: as) = (a :: piece) :: others :=
  ⟨_, _, rfl, by simp [pieces, cut, ha]⟩

theorem pieces_eq_splitOnP (isSeparator : α → Bool) (as : List α) :
    pieces isSeparator as = as.splitOnP isSeparator := by
  induction as with
  | nil => rfl
  | cons a as ih =>
    rw [List.splitOnP_cons_eq_if_modifyHead, ← ih]
    cases ha : isSeparator a with
    | true => exact pieces_cons_of_true ha as
    | false =>
      obtain ⟨piece, others, hpieces, hcons⟩ := exists_pieces_cons_of_false ha as
      rw [hcons, hpieces]
      rfl

/-- A separator ends one piece and begins another, whatever stands around it. -/
theorem pieces_append_cons {a : α} (ha : isSeparator a = true) (front back : List α) :
    pieces isSeparator (front ++ a :: back) =
      pieces isSeparator front ++ pieces isSeparator back := by
  simp only [pieces_eq_splitOnP, List.splitOnP_append_cons front back ha]

theorem pieces_eq_singleton {as : List α} (h : ∀ a ∈ as, isSeparator a = false) :
    pieces isSeparator as = [as] := by
  rw [pieces_eq_splitOnP, List.splitOnP_eq_singleton h]

/-- Whatever is done to each character, the separators are where they were before. -/
theorem pieces_map {β : Type} (f : β → α) (isSeparator : α → Bool) (bs : List β) :
    pieces isSeparator (bs.map f) = (pieces (isSeparator ∘ f) bs).map (List.map f) := by
  induction bs with
  | nil => rfl
  | cons b bs ih =>
    rw [List.map_cons]
    cases hb : isSeparator (f b) with
    | true =>
      have hb' : (isSeparator ∘ f) b = true := hb
      rw [pieces_cons_of_true hb, pieces_cons_of_true hb', ih]
      rfl
    | false =>
      have hb' : (isSeparator ∘ f) b = false := hb
      obtain ⟨piece, others, hpieces, hcons⟩ := exists_pieces_cons_of_false hb (bs.map f)
      obtain ⟨piece', others', hpieces', hcons'⟩ := exists_pieces_cons_of_false hb' bs
      rw [hpieces, hpieces', List.map_cons] at ih
      obtain ⟨hpiece, hothers⟩ := List.cons.inj ih
      rw [hcons, hcons', hpiece, hothers]
      rfl

/-- Cutting at either of two kinds of separators is cutting the pieces of one kind at the other. -/
theorem pieces_or (first second : α → Bool) (as : List α) :
    pieces (fun a => first a || second a) as = (pieces first as).flatMap (pieces second) := by
  induction as with
  | nil => rfl
  | cons a as ih =>
    cases hfirst : first a with
    | true =>
      rw [pieces_cons_of_true (by simp [hfirst]), pieces_cons_of_true hfirst, ih]
      rfl
    | false =>
      obtain ⟨piece, others, hpieces, hcons⟩ := exists_pieces_cons_of_false hfirst as
      rw [hpieces, List.flatMap_cons] at ih
      rw [hcons, List.flatMap_cons]
      cases hsecond : second a with
      | true =>
        rw [pieces_cons_of_true (by simp [hsecond]), pieces_cons_of_true hsecond, ih]
        rfl
      | false =>
        obtain ⟨inner, rest, hinner, hinnerCons⟩ := exists_pieces_cons_of_false hsecond piece
        have hneither : (first a || second a) = false := by rw [hfirst, hsecond]; rfl
        obtain ⟨whole, tail, hwhole, hwholeCons⟩ :=
          @exists_pieces_cons_of_false α (fun a => first a || second a) a hneither as
        rw [hwhole, hinner] at ih
        obtain ⟨hhead, htail⟩ := List.cons.inj ih
        rw [hwholeCons, hinnerCons, hhead, htail]
        rfl

theorem length_pieces (isSeparator : α → Bool) (as : List α) :
    (pieces isSeparator as).length = as.countP isSeparator + 1 := by
  induction as with
  | nil => rfl
  | cons a as ih =>
    cases ha : isSeparator a with
    | true => rw [pieces_cons_of_true ha, List.length_cons, ih, List.countP_cons_of_pos ha]
    | false =>
      obtain ⟨piece, others, hpieces, hcons⟩ := exists_pieces_cons_of_false ha as
      rw [hcons, List.countP_cons_of_neg (by simp [ha]), ← ih, hpieces]
      rfl

/-- The first piece is everything, or a separator and the other pieces follow it. -/
theorem eq_or_exists_of_pieces_cons {as piece : List α} {others : List (List α)}
    (h : pieces isSeparator as = piece :: others) :
    as = piece ∧ others = [] ∨
      ∃ a back, isSeparator a = true ∧ as = piece ++ a :: back ∧
        pieces isSeparator back = others := by
  induction as generalizing piece with
  | nil =>
    obtain ⟨rfl, rfl⟩ := List.cons.inj h
    exact Or.inl ⟨rfl, rfl⟩
  | cons b as ih =>
    cases hb : isSeparator b with
    | true =>
      rw [pieces_cons_of_true hb] at h
      obtain ⟨rfl, hback⟩ := List.cons.inj h
      exact Or.inr ⟨b, as, hb, rfl, hback⟩
    | false =>
      obtain ⟨first, rest, hpieces, hcons⟩ := exists_pieces_cons_of_false hb as
      rw [hcons] at h
      obtain ⟨rfl, rfl⟩ := List.cons.inj h
      rcases ih hpieces with ⟨rfl, hnil⟩ | ⟨a, back, ha, rfl, hback⟩
      · exact Or.inl ⟨rfl, hnil⟩
      · exact Or.inr ⟨a, back, ha, rfl, hback⟩

/-- The first piece stands at the start, and every other one somewhere. -/
theorem isPrefix_and_isInfix_of_pieces {as piece : List α} {others : List (List α)}
    (h : pieces isSeparator as = piece :: others) :
    piece <+: as ∧ ∀ other ∈ others, other <:+: as := by
  induction as generalizing piece others with
  | nil =>
    rw [pieces_nil] at h
    obtain ⟨rfl, rfl⟩ := List.cons.inj h
    exact ⟨List.prefix_refl [], by simp⟩
  | cons a as ih =>
    cases ha : isSeparator a with
    | true =>
      rw [pieces_cons_of_true ha] at h
      obtain ⟨rfl, rfl⟩ := List.cons.inj h
      refine ⟨List.nil_prefix, ?_⟩
      intro other hother
      obtain ⟨first, rest, hpieces⟩ := List.exists_cons_of_ne_nil (pieces_ne_nil isSeparator as)
      obtain ⟨hfirst, hrest⟩ := ih hpieces
      rw [hpieces] at hother
      rcases List.mem_cons.mp hother with rfl | hother
      · exact List.infix_cons hfirst.isInfix
      · exact List.infix_cons (hrest other hother)
    | false =>
      obtain ⟨first, rest, hpieces, hcons⟩ := exists_pieces_cons_of_false ha as
      rw [hcons] at h
      obtain ⟨rfl, rfl⟩ := List.cons.inj h
      obtain ⟨hfirst, hrest⟩ := ih hpieces
      exact ⟨List.cons_prefix_cons.mpr ⟨rfl, hfirst⟩,
        fun other hother => List.infix_cons (hrest other hother)⟩

theorem isInfix_of_mem_pieces {as piece : List α} (h : piece ∈ pieces isSeparator as) :
    piece <:+: as := by
  obtain ⟨first, rest, hpieces⟩ := List.exists_cons_of_ne_nil (pieces_ne_nil isSeparator as)
  obtain ⟨hfirst, hrest⟩ := isPrefix_and_isInfix_of_pieces hpieces
  rw [hpieces] at h
  rcases List.mem_cons.mp h with rfl | h
  · exact hfirst.isInfix
  · exact hrest piece h

theorem isSeparator_of_mem_pieces {as piece : List α} (h : piece ∈ pieces isSeparator as) {a : α}
    (ha : a ∈ piece) : isSeparator a = false := by
  induction as generalizing piece with
  | nil =>
    rw [pieces_nil, List.mem_singleton] at h
    rw [h] at ha
    cases ha
  | cons b as ih =>
    cases hb : isSeparator b with
    | true =>
      rw [pieces_cons_of_true hb] at h
      rcases List.mem_cons.mp h with rfl | h
      · cases ha
      · exact ih h ha
    | false =>
      obtain ⟨first, rest, hpieces, hcons⟩ := exists_pieces_cons_of_false hb as
      rw [hcons] at h
      rcases List.mem_cons.mp h with rfl | h
      · rcases List.mem_cons.mp ha with rfl | ha
        · exact hb
        · exact ih (hpieces ▸ List.mem_cons_self) ha
      · exact ih (hpieces ▸ List.mem_cons_of_mem first h) ha

/-- What separates nothing is kept in some piece. -/
theorem exists_mem_pieces {as : List α} {a : α} (h : a ∈ as) (ha : isSeparator a = false) :
    ∃ piece ∈ pieces isSeparator as, a ∈ piece := by
  induction as with
  | nil => cases h
  | cons b as ih =>
    cases hb : isSeparator b with
    | true =>
      rw [pieces_cons_of_true hb]
      rcases List.mem_cons.mp h with rfl | h
      · exact absurd (hb.symm.trans ha) (by decide)
      · obtain ⟨piece, hpiece, hmem⟩ := ih h
        exact ⟨piece, List.mem_cons_of_mem _ hpiece, hmem⟩
    | false =>
      obtain ⟨first, rest, hpieces, hcons⟩ := exists_pieces_cons_of_false hb as
      rw [hcons]
      rcases List.mem_cons.mp h with rfl | h
      · exact ⟨a :: first, List.mem_cons_self, List.mem_cons_self⟩
      · obtain ⟨piece, hpiece, hmem⟩ := ih h
        rw [hpieces] at hpiece
        rcases List.mem_cons.mp hpiece with rfl | hrest
        · exact ⟨b :: piece, List.mem_cons_self, List.mem_cons_of_mem b hmem⟩
        · exact ⟨piece, List.mem_cons_of_mem _ hrest, hmem⟩

theorem getLast?_of_getLast?_pieces {as : List α}
    (h : (pieces isSeparator as).getLast? = some []) :
    as = [] ∨ ∃ a, as.getLast? = some a ∧ isSeparator a = true := by
  induction as with
  | nil => exact Or.inl rfl
  | cons a as ih =>
    right
    have hlast : ∀ b, as.getLast? = some b → (a :: as).getLast? = some b := by
      intro b hb
      rw [List.getLast?_cons, hb]
      rfl
    cases ha : isSeparator a with
    | true =>
      rw [pieces_cons_of_true ha, List.getLast?_cons_of_ne_nil (pieces_ne_nil _ _)] at h
      rcases ih h with rfl | ⟨b, hb, hsep⟩
      · exact ⟨a, rfl, ha⟩
      · exact ⟨b, hlast b hb, hsep⟩
    | false =>
      obtain ⟨first, rest, hpieces, hcons⟩ := exists_pieces_cons_of_false ha as
      rw [hcons] at h
      cases rest with
      | nil => cases h
      | cons other rest =>
        rw [List.getLast?_cons_cons] at h
        rw [hpieces, List.getLast?_cons_cons] at ih
        rcases ih h with rfl | ⟨b, hb, hsep⟩
        · cases hpieces
        · exact ⟨b, hlast b hb, hsep⟩

theorem getLast?_pieces_of_getLast? {as : List α} {a : α} (h : as.getLast? = some a)
    (ha : isSeparator a = true) : (pieces isSeparator as).getLast? = some [] := by
  obtain ⟨front, rfl⟩ := List.getLast?_eq_some_iff.mp h
  rw [pieces_append_cons ha, pieces_nil, List.getLast?_concat]

/-- A list is cut at the first place of an entry in one way. -/
theorem append_cons_inj {a : α} {first second back back' : List α} (h : a ∉ first)
    (h' : a ∉ second) :
    first ++ a :: back = second ++ a :: back' ↔ first = second ∧ back = back' := by
  constructor
  · intro heq
    rcases List.append_eq_append_iff.mp heq with ⟨extra, rfl, hextra⟩ | ⟨extra, rfl, hextra⟩
    · cases extra with
      | nil => simpa using hextra
      | cons c extra =>
        obtain ⟨rfl, -⟩ := List.cons.inj hextra
        exact absurd (by simp) h'
    · cases extra with
      | nil => simpa [eq_comm] using hextra
      | cons c extra =>
        obtain ⟨rfl, -⟩ := List.cons.inj hextra
        exact absurd (by simp) h
  · rintro ⟨rfl, rfl⟩
    rfl

end IgnoreRules
