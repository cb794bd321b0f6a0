import IgnoreRules.Proofs.Regex.Span
import IgnoreRules.Regex.Search
import Mathlib.Logic.Relation
import Mathlib.Tactic.Tauto

/-! # The search finds what there is to find

Positions are turned back into cuts of the text. The sweep of a repetition settles a position when
its turn comes; that nothing is missed rests on steps never leading backwards.
-/

namespace IgnoreRules

namespace Regex

theorem mem_union {i : Nat} (left right : List Nat) :
    i ∈ union left right ↔ i ∈ left ∨ i ∈ right := by
  fun_induction union left right with
  | case1 right => simp
  | case2 left => simp
  | case3 j left k right hlt ih => simp only [List.mem_cons, ih]; tauto
  | case4 j left k right _ hlt ih => simp only [List.mem_cons, ih]; tauto
  | case5 j left k right hjk hkj ih =>
    have heq : j = k := by omega
    subst heq
    simp only [List.mem_cons, ih]
    tauto

/-- A walk that does not end where it begins takes a first step forwards. -/
theorem exists_step_of_reflTransGen {R : Nat → Nat → Prop} (hR : ∀ i k, R i k → i ≤ k) {i j : Nat}
    (h : Relation.ReflTransGen R i j) : i = j ∨ ∃ k, i < k ∧ R i k ∧ Relation.ReflTransGen R k j := by
  induction h using Relation.ReflTransGen.head_induction_on with
  | refl => exact Or.inl rfl
  | head hk hkj ih =>
    rename_i i k
    rcases Nat.lt_or_eq_of_le (hR i k hk) with hlt | rfl
    · exact Or.inr ⟨k, hlt, hk, hkj⟩
    · exact ih

/-- The sweep reaches exactly what can be reached from a pending position that still lies ahead. -/
theorem mem_sweep {step : Nat → List Nat} {R : Nat → Nat → Prop} {bound : Nat}
    (hR : ∀ i k, R i k → i ≤ k ∧ k ≤ bound) (hstep : ∀ i ≤ bound, ∀ k, k ∈ step i ↔ R i k)
    {j : Nat} (fuel next : Nat) (pending : List Nat) (hfuel : fuel + next = bound + 1) :
    j ∈ sweep step fuel next pending ↔
      ∃ i ∈ pending, next ≤ i ∧ i ≤ bound ∧ Relation.ReflTransGen R i j := by
  induction fuel generalizing next pending with
  | zero =>
    simp only [sweep, List.not_mem_nil, false_iff]
    rintro ⟨i, -, hi, hb, -⟩
    omega
  | succ fuel ih =>
    have hrest := fun pending => ih (next + 1) pending (by omega)
    rw [sweep]
    by_cases hempty : pending.isEmpty = true
    · rw [if_pos hempty, List.isEmpty_iff.mp hempty]
      simp
    rw [if_neg hempty]
    by_cases hnext : pending.contains next = true
    · rw [if_pos hnext, List.mem_cons, hrest]
      rw [List.contains_iff_mem] at hnext
      constructor
      · rintro (rfl | ⟨i, hi, hlt, hb, hreach⟩)
        · exact ⟨j, hnext, Nat.le_refl j, by omega, .refl⟩
        · rcases (mem_union _ _).mp hi with hi | hi
          · have hfirst : R next i := (hstep next (by omega) i).mp hi
            exact ⟨next, hnext, Nat.le_refl next, by omega, .head hfirst hreach⟩
          · exact ⟨i, List.mem_of_mem_erase hi, by omega, hb, hreach⟩
      · rintro ⟨i, hi, hle, hb, hreach⟩
        rcases Nat.lt_or_eq_of_le hle with hlt | rfl
        · have herase : i ∈ pending.erase next := (List.mem_erase_of_ne (by omega)).mpr hi
          exact Or.inr ⟨i, (mem_union _ _).mpr (Or.inr herase), by omega, hb, hreach⟩
        · rcases exists_step_of_reflTransGen (fun i k hk => (hR i k hk).1) hreach with
            rfl | ⟨k, hlt, hk, hkj⟩
          · exact Or.inl rfl
          · have hmem : k ∈ step next := (hstep next hb k).mpr hk
            exact Or.inr ⟨k, (mem_union _ _).mpr (Or.inl hmem), by omega, (hR next k hk).2, hkj⟩
    · rw [if_neg hnext, hrest]
      rw [List.contains_iff_mem] at hnext
      constructor
      · rintro ⟨i, hi, hlt, hb, hreach⟩
        exact ⟨i, hi, by omega, hb, hreach⟩
      · rintro ⟨i, hi, hle, hb, hreach⟩
        have hne : i ≠ next := by
          rintro rfl
          exact hnext hi
        exact ⟨i, hi, by omega, hb, hreach⟩

end Regex

def Span.At (s : Span) (text : Text) (i j : Nat) : Prop :=
  ∃ before middle after, text = before ++ middle ++ after ∧ before.length = i ∧
    (before ++ middle).length = j ∧ s before middle after

namespace Span

variable {text : Text} {i j k : Nat}

theorem At.le {s : Span} (h : s.At text i j) : i ≤ j ∧ j ≤ text.length := by
  obtain ⟨before, middle, after, rfl, rfl, rfl, -⟩ := h
  simp only [List.length_append]
  omega

theorem at_of_empty {s : Span} (hs : ∀ before middle after, s before middle after → middle = []) :
    s.At text i j ↔ i = j ∧ i ≤ text.length ∧ s (text.take i) [] (text.drop i) := by
  constructor
  · rintro ⟨before, middle, after, rfl, rfl, rfl, h⟩
    obtain rfl := hs _ _ _ h
    simpa using h
  · rintro ⟨rfl, hi, h⟩
    exact ⟨text.take i, [], text.drop i, by simp, by simp [hi], by simp [hi], h⟩

theorem at_nothing : At nothing text i j ↔ i = j ∧ i ≤ text.length := by
  rw [at_of_empty (s := nothing) fun _ _ _ h => h]
  simp [nothing]

theorem at_atStart : At atStart text i j ↔ i = j ∧ i = 0 := by
  rw [at_of_empty fun _ _ _ h => h.1]
  simp only [atStart, List.take_eq_nil_iff, true_and]
  constructor
  · rintro ⟨rfl, hi, rfl | rfl⟩
    · exact ⟨rfl, rfl⟩
    · exact ⟨rfl, by simpa using hi⟩
  · rintro ⟨rfl, rfl⟩
    exact ⟨rfl, Nat.zero_le _, Or.inl rfl⟩

theorem at_atEnd : At atEnd text i j ↔ i = j ∧ i = text.length := by
  rw [at_of_empty fun _ _ _ h => h.1]
  simp only [atEnd, List.drop_eq_nil_iff, true_and]
  omega

theorem at_one {p : Char → Prop} :
    At (one p) text i j ↔ j = i + 1 ∧ ∃ c, text[i]? = some c ∧ p c := by
  constructor
  · rintro ⟨before, middle, after, rfl, rfl, rfl, c, rfl, hc⟩
    exact ⟨by simp, c, by simp, hc⟩
  · rintro ⟨rfl, c, hget, hc⟩
    obtain ⟨hlt, rfl⟩ := List.getElem?_eq_some_iff.mp hget
    refine ⟨text.take i, [text[i]], text.drop (i + 1), by simp, ?_, ?_, text[i], rfl, hc⟩
    · simp only [List.length_take]
      omega
    · simp only [List.length_append, List.length_take, List.length_singleton]
      omega

theorem at_alt {s s' : Span} : At (alt s s') text i j ↔ s.At text i j ∨ s'.At text i j := by
  constructor
  · rintro ⟨before, middle, after, htext, hi, hj, h | h⟩
    · exact Or.inl ⟨before, middle, after, htext, hi, hj, h⟩
    · exact Or.inr ⟨before, middle, after, htext, hi, hj, h⟩
  · rintro (⟨before, middle, after, htext, hi, hj, h⟩ | ⟨before, middle, after, htext, hi, hj, h⟩)
    · exact ⟨before, middle, after, htext, hi, hj, Or.inl h⟩
    · exact ⟨before, middle, after, htext, hi, hj, Or.inr h⟩

/-- Two spans of one text that meet at a position share the cut there. -/
theorem At.exists_cut {s s' : Span} (h : s.At text i j) (h' : s'.At text j k) :
    ∃ before front back after, text = before ++ (front ++ back) ++ after ∧ before.length = i ∧
      (before ++ (front ++ back)).length = k ∧ s before front (back ++ after) ∧
      s' (before ++ front) back after := by
  obtain ⟨before, front, rest, rfl, rfl, rfl, hs⟩ := h
  obtain ⟨before', back, after, htext, hlen, rfl, hs'⟩ := h'
  rw [List.append_assoc before'] at htext
  obtain ⟨rfl, rfl⟩ := List.append_inj htext hlen.symm
  exact ⟨before, front, back, after, by simp, rfl, by simp, hs, hs'⟩

theorem at_seq {s s' : Span} :
    At (seq s s') text i k ↔ ∃ j, s.At text i j ∧ s'.At text j k := by
  constructor
  · rintro ⟨before, _, after, rfl, rfl, rfl, front, back, rfl, h, h'⟩
    exact ⟨(before ++ front).length, ⟨before, front, back ++ after, by simp, rfl, rfl, h⟩,
      ⟨before ++ front, back, after, by simp, rfl, by simp, h'⟩⟩
  · rintro ⟨j, h, h'⟩
    obtain ⟨before, front, back, after, htext, hi, hk, hs, hs'⟩ := h.exists_cut h'
    exact ⟨before, front ++ back, after, htext, hi, hk, front, back, rfl, hs, hs'⟩

theorem at_repeats {s : Span} :
    At (Repeats s) text i j ↔ i ≤ text.length ∧ Relation.ReflTransGen (s.At text) i j := by
  constructor
  · rintro ⟨before, middle, after, rfl, rfl, rfl, h⟩
    refine ⟨by simp only [List.length_append]; omega, ?_⟩
    induction h with
    | stop before after => simpa using .refl
    | more hs _ ih =>
      rename_i before front back after _
      have hfirst : s.At (before ++ (front ++ back) ++ after) before.length
          (before ++ front).length := ⟨before, front, back ++ after, by simp, rfl, rfl, hs⟩
      have hrest := ih
      rw [List.append_assoc before front back] at hrest
      exact .head hfirst hrest
  · rintro ⟨hi, h⟩
    induction h using Relation.ReflTransGen.head_induction_on with
    | refl => exact ⟨text.take j, [], text.drop j, by simp, by simp [hi], by simp [hi], .stop _ _⟩
    | head hstep _ ih =>
      obtain ⟨before, front, back, after, htext, hlen, hk, hs, hrest⟩ :=
        hstep.exists_cut (ih hstep.le.2)
      exact ⟨before, front ++ back, after, htext, hlen, hk, .more hs hrest⟩

end Span

def Atom.Test (case : CaseSensitivity) (a : Atom) (c : Char) : Prop :=
  a.accepts (case.spellings c) = true

namespace Regex

theorem mem_sweep_advance {case : CaseSensitivity} {text : Text} {body : Regex Atom}
    (ih : ∀ {starts : List Nat}, (∀ i ∈ starts, i ≤ text.length) → ∀ j,
      j ∈ body.advance (Subject.ofText case text) starts ↔
        ∃ i ∈ starts, (body.span (Atom.Test case)).At text i j)
    (starts : List Nat) (j : Nat) :
    j ∈ sweep (fun i => body.advance (Subject.ofText case text) [i])
        ((Subject.ofText case text).size + 1) 0 starts ↔
      ∃ i ∈ starts, (Span.Repeats (body.span (Atom.Test case))).At text i j := by
  have hsize : (Subject.ofText case text).size = text.length := by simp [Subject.ofText]
  have hstep : ∀ i ≤ text.length, ∀ k, k ∈ body.advance (Subject.ofText case text) [i] ↔
      (body.span (Atom.Test case)).At text i k := by
    intro i hi k
    rw [ih (by simpa using hi)]
    simp
  rw [hsize, mem_sweep (fun i k h => h.le) hstep (text.length + 1) 0 starts (by omega)]
  constructor
  · rintro ⟨i, hi, -, hb, hreach⟩
    exact ⟨i, hi, Span.at_repeats.mpr ⟨hb, hreach⟩⟩
  · rintro ⟨i, hi, h⟩
    obtain ⟨hb, hreach⟩ := Span.at_repeats.mp h
    exact ⟨i, hi, Nat.zero_le i, hb, hreach⟩

/-- Positions are advanced along the spans of the expression. -/
theorem mem_advance (case : CaseSensitivity) (text : Text) (r : Regex Atom) {starts : List Nat}
    (hstarts : ∀ i ∈ starts, i ≤ text.length) (j : Nat) :
    j ∈ r.advance (Subject.ofText case text) starts ↔
      ∃ i ∈ starts, (r.span (Atom.Test case)).At text i j := by
  induction r generalizing starts j with
  | empty =>
    simp only [advance, span, Span.at_nothing]
    constructor
    · exact fun hj => ⟨j, hj, rfl, hstarts j hj⟩
    · rintro ⟨i, hi, rfl, -⟩
      exact hi
  | atom a =>
    simp only [advance, span, Span.at_one, List.mem_filterMap]
    refine exists_congr fun i => and_congr_right fun hi => ?_
    rw [Subject.ofText, List.getElem?_toArray, List.getElem?_map]
    cases text[i]? with
    | none => simp
    | some c =>
      rw [Option.map_some]
      constructor
      · intro hadvance
        dsimp only at hadvance
        by_cases hc : a.accepts (case.spellings c) = true
        · rw [if_pos hc] at hadvance
          exact ⟨(Option.some.inj hadvance).symm, c, rfl, hc⟩
        · rw [if_neg hc] at hadvance
          exact absurd hadvance (Option.some_ne_none _).symm
      · rintro ⟨rfl, c', hget, hc⟩
        cases hget
        exact if_pos hc
  | textStart =>
    simp only [advance, span, Span.at_atStart, List.mem_filter, beq_iff_eq]
    constructor
    · rintro ⟨hj, rfl⟩
      exact ⟨0, hj, rfl, rfl⟩
    · rintro ⟨i, hi, rfl, rfl⟩
      exact ⟨hi, rfl⟩
  | textEnd =>
    simp only [advance, span, Span.at_atEnd, List.mem_filter, beq_iff_eq, Subject.ofText,
      List.size_toArray, List.length_map]
    constructor
    · rintro ⟨hj, rfl⟩
      exact ⟨_, hj, rfl, rfl⟩
    · rintro ⟨i, hi, rfl, rfl⟩
      exact ⟨hi, rfl⟩
  | seq first second ih ih' =>
    have hmiddle : ∀ k ∈ first.advance (Subject.ofText case text) starts, k ≤ text.length := by
      intro k hk
      obtain ⟨i, -, hspan⟩ := (ih hstarts k).mp hk
      exact hspan.le.2
    simp only [advance, span, Span.at_seq, ih' hmiddle, ih hstarts]
    constructor
    · rintro ⟨k, ⟨i, hi, hfirst⟩, hsecond⟩
      exact ⟨i, hi, k, hfirst, hsecond⟩
    · rintro ⟨i, hi, k, hfirst, hsecond⟩
      exact ⟨k, ⟨i, hi, hfirst⟩, hsecond⟩
  | alt left right ih ih' =>
    simp only [advance, span, Span.at_alt, mem_union, ih hstarts, ih' hstarts, and_or_left,
      exists_or]
  | star body ih => exact mem_sweep_advance (fun h => ih h) starts j
  | plus body ih =>
    simp only [advance, span, Span.at_seq]
    rw [mem_sweep_advance (fun h => ih h)]
    simp only [ih hstarts]
    constructor
    · rintro ⟨k, ⟨i, hi, hfirst⟩, hrest⟩
      exact ⟨i, hi, k, hfirst, hrest⟩
    · rintro ⟨i, hi, k, hfirst, hrest⟩
      exact ⟨k, ⟨i, hi, hfirst⟩, hrest⟩
  | opt body ih =>
    simp only [advance, span, Span.at_alt, Span.at_nothing, mem_union, ih hstarts, and_or_left,
      exists_or]
    refine or_congr ⟨fun hj => ⟨j, hj, rfl, hstarts j hj⟩, ?_⟩ Iff.rfl
    rintro ⟨i, hi, rfl, -⟩
    exact hi

/-- A search succeeds exactly if the text can be cut around a span of the expression. -/
theorem search_iff (case : CaseSensitivity) (text : Text) (r : Regex Atom) :
    r.search (Subject.ofText case text) = true ↔ (r.span (Atom.Test case)).Finds text := by
  have hsize : (Subject.ofText case text).size = text.length := by simp [Subject.ofText]
  have hstarts : ∀ i ∈ List.range (text.length + 1), i ≤ text.length := by
    intro i hi
    have := List.mem_range.mp hi
    omega
  rw [search, hsize, Bool.not_eq_true', List.isEmpty_eq_false_iff_exists_mem]
  constructor
  · rintro ⟨j, hj⟩
    obtain ⟨i, -, before, middle, after, htext, -, -, h⟩ := (mem_advance case text r hstarts j).mp hj
    exact ⟨before, middle, after, htext, h⟩
  · rintro ⟨before, middle, after, htext, h⟩
    have hat : (r.span (Atom.Test case)).At text before.length (before ++ middle).length :=
      ⟨before, middle, after, htext, rfl, rfl, h⟩
    have hle := hat.le
    exact ⟨_, (mem_advance case text r hstarts _).mpr
      ⟨before.length, List.mem_range.mpr (by omega), hat⟩⟩

end Regex

end IgnoreRules
