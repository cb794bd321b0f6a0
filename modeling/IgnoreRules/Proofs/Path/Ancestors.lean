import IgnoreRules.Path.Ancestors

/-! # The directories above a directory

The list of ancestors is prefix-closed: whatever stands before a directory in the list of ancestors
of some path is exactly the list of ancestors of that directory. Everything that walks down to a
path therefore walks down to each directory on the way.
-/

namespace IgnoreRules

theorem ne_nil_of_mem_directoryPrefixes {text q : Text} (h : q ∈ directoryPrefixes text) :
    q ≠ [] := by
  cases text with
  | nil => simp [directoryPrefixes] at h
  | cons c rest =>
    rintro rfl
    simp only [directoryPrefixes] at h
    split at h <;> simp at h

theorem directoryPrefixes_of_eq_append {text q : Text} {before after : List Text}
    (h : directoryPrefixes text = before ++ q :: after) : directoryPrefixes q = before := by
  induction text generalizing q before after with
  | nil => simp [directoryPrefixes] at h
  | cons c rest ih =>
    -- A longer prefix is `c` and a prefix of the rest, whose own prefixes stand before it.
    have longer : ∀ {before' : List Text}, (directoryPrefixes rest).map (c :: ·) =
        before' ++ q :: after → ∃ r, q = c :: r ∧ r ≠ [] ∧
          before' = (directoryPrefixes r).map (c :: ·) := by
      intro before' hb
      obtain ⟨front, back, hrest, rfl, hback⟩ := List.map_eq_append_iff.mp hb
      obtain ⟨r, tail, rfl, rfl, -⟩ := List.map_eq_cons_iff.mp hback
      exact ⟨r, rfl, ne_nil_of_mem_directoryPrefixes (by rw [hrest]; simp), by rw [ih hrest]⟩
    by_cases hc : c = '/' ∧ rest ≠ []
    · simp only [directoryPrefixes, if_pos hc] at h
      cases before with
      | nil =>
        obtain ⟨rfl, -⟩ := List.cons.inj h
        simp [directoryPrefixes]
      | cons first before =>
        obtain ⟨rfl, hrest⟩ := List.cons.inj h
        obtain ⟨r, rfl, hr, rfl⟩ := longer hrest
        simp [directoryPrefixes, hc.1, hr]
    · simp only [directoryPrefixes, if_neg hc] at h
      obtain ⟨r, rfl, hr, rfl⟩ := longer h
      have hslash : c ≠ '/' := by
        rintro rfl
        have : rest = [] := by simpa using hc
        subst this
        simp [directoryPrefixes] at h
      simp [directoryPrefixes, hslash]

/-- What stands before an ancestor are the ancestors of it. -/
theorem ancestors_of_eq_append {path q : Text} {before after : List Text}
    (h : ancestors path = before ++ q :: after) : ancestors q = before := by
  cases path with
  | nil => simp [ancestors] at h
  | cons c rest =>
    obtain ⟨front, back, hrest, rfl, hback⟩ := List.map_eq_append_iff.mp h
    obtain ⟨r, tail, rfl, rfl, -⟩ := List.map_eq_cons_iff.mp hback
    rw [ancestors, directoryPrefixes_of_eq_append hrest]

end IgnoreRules
