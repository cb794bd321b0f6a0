import IgnoreRules.Path.Ancestors
import IgnoreRules.Path.Basic
import IgnoreRules.Proofs.Text.Pieces
import IgnoreRules.Proofs.Text.Spellings
import Mathlib.Data.List.Forall2

/-! # Paths that differ in case only

Neither `/` nor `.` has a case variant. So two paths that are equal up to case are cut at the same
places: both are refused for the same reason or both pass, and their ancestors are equal up to case
one by one.
-/

namespace IgnoreRules

abbrev Text.Alike (x y : Text) : Prop := List.Forall₂ CaseSensitivity.insensitive.Same x y

variable {x y : Text}

theorem any_eq_of_forall₂ {α β : Type} {R : α → β → Prop} {f : α → Bool} {g : β → Bool}
    (hR : ∀ a b, R a b → f a = g b) {as : List α} {bs : List β} (h : List.Forall₂ R as bs) :
    as.any f = bs.any g := by
  induction h with
  | nil => rfl
  | cons hab _ ih => rw [List.any_cons, List.any_cons, hR _ _ hab, ih]

theorem eq_iff_of_same {a b c : Char} (hc : caseVariants c.toNat = [c.toNat])
    (h : CaseSensitivity.insensitive.Same a b) : a = c ↔ b = c := by
  constructor
  · intro ha
    rw [ha] at h
    exact (CaseSensitivity.same_iff_of_caseVariants hc).mp h
  · intro hb
    rw [hb] at h
    exact (CaseSensitivity.same_iff_of_caseVariants hc).mp (CaseSensitivity.same_comm.mp h)

/-- A text of characters without variants is alike to itself alone. -/
theorem eq_iff_of_alike {text : Text} (htext : ∀ c ∈ text, caseVariants c.toNat = [c.toNat])
    (h : Text.Alike x y) : x = text ↔ y = text := by
  induction h generalizing text with
  | nil => exact Iff.rfl
  | cons hab _ ih =>
    cases text with
    | nil => simp
    | cons c text =>
      have hhead := eq_iff_of_same (htext c List.mem_cons_self) hab
      have htail := ih fun d hd => htext d (List.mem_cons_of_mem _ hd)
      simp only [List.cons.injEq, hhead, htail]

theorem head?_eq_slash_iff_of_alike (h : Text.Alike x y) :
    x.head? = some '/' ↔ y.head? = some '/' := by
  cases h with
  | nil => exact Iff.rfl
  | cons hab _ => simpa using eq_iff_of_same CaseSensitivity.caseVariants_slash hab

theorem all_dots_of_alike (h : Text.Alike x y) : x.all (· = '.') = y.all (· = '.') := by
  induction h with
  | nil => rfl
  | cons hab _ ih =>
    have hhead := eq_iff_of_same CaseSensitivity.caseVariants_dot hab
    simp only [List.all_cons, ih, hhead]

theorem eq_dots_iff_of_alike (h : Text.Alike x y) : x = ['.', '.'] ↔ y = ['.', '.'] := by
  have hdots : ∀ c ∈ ['.', '.'], caseVariants c.toNat = [c.toNat] := by
    intro c hc
    have hdot : c = '.' := by simpa using hc
    rw [hdot]
    exact CaseSensitivity.caseVariants_dot
  exact eq_iff_of_alike hdots h

/-- Texts that are alike are cut into pieces that are alike. -/
theorem alike_pieces (h : Text.Alike x y) :
    List.Forall₂ Text.Alike (pieces (· = '/') x) (pieces (· = '/') y) := by
  induction h with
  | nil => exact .cons .nil .nil
  | @cons a b x y hab htail ih =>
    have hslash := eq_iff_of_same CaseSensitivity.caseVariants_slash hab
    by_cases ha : a = '/'
    · have hb := hslash.mp ha
      rw [pieces_cons_of_true (by simpa using ha), pieces_cons_of_true (by simpa using hb)]
      exact .cons .nil ih
    · have hb := mt hslash.mpr ha
      obtain ⟨piece, others, hx, hax⟩ : ∃ piece others, pieces (· = '/') x = piece :: others ∧
          pieces (· = '/') (a :: x) = (a :: piece) :: others :=
        exists_pieces_cons_of_false (by simpa using ha) x
      obtain ⟨piece', others', hy, hby⟩ : ∃ piece others, pieces (· = '/') y = piece :: others ∧
          pieces (· = '/') (b :: y) = (b :: piece) :: others :=
        exists_pieces_cons_of_false (by simpa using hb) y
      rw [hx, hy] at ih
      obtain ⟨hpiece, hothers⟩ := List.forall₂_cons.mp ih
      rw [hax, hby]
      exact .cons (.cons hab hpiece) hothers

theorem alike_directoryPrefixes (h : Text.Alike x y) :
    List.Forall₂ Text.Alike (directoryPrefixes x) (directoryPrefixes y) := by
  induction h with
  | nil => exact .nil
  | @cons a b x y hab htail ih =>
    have hslash := eq_iff_of_same CaseSensitivity.caseVariants_slash hab
    have hlonger : List.Forall₂ Text.Alike ((directoryPrefixes x).map (a :: ·))
        ((directoryPrefixes y).map (b :: ·)) :=
      List.rel_map (fun _ _ hprefix => .cons hab hprefix) ih
    have hend : x = [] ↔ y = [] := eq_iff_of_alike (by simp) htail
    simp only [directoryPrefixes, hslash, ne_eq, hend]
    split
    · exact .cons (.cons hab .nil) hlonger
    · exact hlonger

theorem alike_ancestors (h : Text.Alike x y) :
    List.Forall₂ Text.Alike (ancestors x) (ancestors y) := by
  cases h with
  | nil => exact .nil
  | cons hab htail =>
    exact List.rel_map (fun _ _ hprefix => .cons hab hprefix) (alike_directoryPrefixes htail)

namespace Path

/-- Whatever is wrong with the components of a path is wrong with those of each one that is alike. -/
theorem map_reason_componentFault? (h : Text.Alike x y) :
    (componentFault? x x).map (·.reason) = (componentFault? y y).map (·.reason) := by
  have hpieces := alike_pieces h
  have hfirst : Text.Alike ((pieces (· = '/') x).headD []) ((pieces (· = '/') y).headD []) := by
    cases hpieces with
    | cons hpiece _ => exact hpiece
  have hslash := head?_eq_slash_iff_of_alike h
  have hdots := eq_dots_iff_of_alike hfirst
  have hall := all_dots_of_alike hfirst
  have hany : (pieces (· = '/') x).any (· = ['.', '.']) = (pieces (· = '/') y).any (· = ['.', '.']) :=
    any_eq_of_forall₂ (fun _ _ hpiece => by simp only [eq_dots_iff_of_alike hpiece]) hpieces
  simp only [componentFault?, hslash, ne_eq, hdots, hall, hany]
  split
  · rfl
  · split
    · rfl
    · split <;> rfl

end Path

/-- Paths that are alike are refused for one reason, or both pass as they are. -/
theorem RelativePath.parse_alike {policy : PathPolicy} (hstyle : policy.style = .posix)
    (h : Text.Alike x y) :
    (∃ error error', parse policy x = .error error ∧ parse policy y = .error error' ∧
        error.reason = error'.reason) ∨
      ∃ path path', parse policy x = .ok path ∧ parse policy y = .ok path' ∧
        Text.Alike path.text path'.text := by
  have hnil : x = [] ↔ y = [] := eq_iff_of_alike (by simp) h
  by_cases hx : x = []
  · have hy := hnil.mp hx
    exact Or.inl ⟨.empty, .empty, dif_pos hx, dif_pos hy, rfl⟩
  · have hy := mt hnil.mpr hx
    -- Under this style a path is taken as it is, and only its components can be at fault.
    have hfault : ∀ input, Path.fault? policy input =
        if policy.allowRelativePaths then none else Path.componentFault? input input := by
      intro input
      rw [Path.fault?, hstyle]
      rfl
    have hreasons :
        (Path.fault? policy x).map (·.reason) = (Path.fault? policy y).map (·.reason) := by
      rw [hfault, hfault]
      split
      · rfl
      · exact Path.map_reason_componentFault? h
    cases hxf : Path.fault? policy x with
    | some error =>
      cases hyf : Path.fault? policy y with
      | some error' =>
        rw [hxf, hyf] at hreasons
        have hreason : error.reason = error'.reason := Option.some.inj hreasons
        exact Or.inl ⟨error, error', by rw [parse, dif_neg hx, hxf], by rw [parse, dif_neg hy, hyf],
          hreason⟩
      | none => simp [hxf, hyf] at hreasons
    | none =>
      cases hyf : Path.fault? policy y with
      | some error' => simp [hxf, hyf] at hreasons
      | none =>
        have hnormal : ∀ input, Path.normalize policy.style input = input := by
          intro input
          rw [hstyle]
          rfl
        refine Or.inr ⟨⟨Path.normalize policy.style x, Path.normalize_ne_nil policy.style hx⟩,
          ⟨Path.normalize policy.style y, Path.normalize_ne_nil policy.style hy⟩,
          by rw [parse, dif_neg hx, hxf], by rw [parse, dif_neg hy, hyf], ?_⟩
        simpa only [hnormal] using h

end IgnoreRules
