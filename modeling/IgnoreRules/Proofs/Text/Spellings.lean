import IgnoreRules.Glob.CharClass
import IgnoreRules.Options

/-! # What characters count as

The spellings of a character are code points. They are turned back into characters here: a fold
never leaves the characters, and no character but `/` counts as `/`.
-/

namespace IgnoreRules

def IsPoint (point : Nat) : Prop := ∃ c : Char, c.toNat = point

theorem isPoint_iff {point : Nat} :
    IsPoint point ↔ point < 0xD800 ∨ 0xDFFF < point ∧ point < 0x110000 := by
  constructor
  · rintro ⟨c, rfl⟩
    exact c.valid
  · intro h
    refine ⟨Char.ofNat point, ?_⟩
    rw [Char.ofNat, dif_pos h]
    rfl

namespace FoldRun

/-- Neither the run nor what it folds to touches the surrogates. -/
def IsPlain (run : FoldRun) : Prop :=
  (run.last < 0xD800 ∨ 0xDFFF < run.first ∧ run.last < 0x110000) ∧
    (run.target + (run.last - run.first) < 0xD800 ∨
      0xDFFF < run.target ∧ run.target + (run.last - run.first) < 0x110000)

instance (run : FoldRun) : Decidable run.IsPlain := inferInstanceAs (Decidable (_ ∧ _))

theorem isPlain_of_mem_all : ∀ run ∈ all, run.IsPlain := by decide +kernel

theorem isPoint_image {run : FoldRun} {point : Nat} (h : run.IsPlain)
    (hc : run.covers point = true) : IsPoint (run.image point) := by
  simp only [covers, Bool.and_eq_true, decide_eq_true_eq] at hc
  obtain ⟨-, himage⟩ := h
  rw [isPoint_iff, image]
  omega

theorem isPoint_of_covers {run : FoldRun} {point : Nat} (h : run.IsPlain)
    (hc : run.covers point = true) : IsPoint point := by
  simp only [covers, Bool.and_eq_true, decide_eq_true_eq] at hc
  obtain ⟨hrun, -⟩ := h
  rw [isPoint_iff]
  omega

theorem covers_of_source? {run : FoldRun} {fold point : Nat} (h : run.source? fold = some point) :
    run.covers point = true := by
  unfold source? at h
  dsimp only at h
  split at h
  · next hc =>
    cases h
    exact (Bool.and_eq_true _ _ ▸ hc).2
  · cases h

end FoldRun

theorem isPoint_foldPoint {point : Nat} (h : IsPoint point) : IsPoint (foldPoint point) := by
  unfold foldPoint
  split
  · next run found =>
    have hc : run.covers point = true := by simpa using List.find?_some found
    exact FoldRun.isPoint_image (FoldRun.isPlain_of_mem_all run (List.mem_of_find?_eq_some found)) hc
  · exact h

theorem isPoint_of_mem_caseVariants {point q : Nat} (h : IsPoint point)
    (hq : q ∈ caseVariants point) : IsPoint q := by
  have hmem := (List.mem_filter.mp hq).1
  rcases List.mem_cons.mp hmem with rfl | hmem
  · exact isPoint_foldPoint h
  · obtain ⟨run, hrun, hsource⟩ := List.mem_filterMap.mp hmem
    exact FoldRun.isPoint_of_covers (FoldRun.isPlain_of_mem_all run hrun)
      (FoldRun.covers_of_source? hsource)

namespace CaseSensitivity

def Same : CaseSensitivity → Char → Char → Prop
  | .insensitive, c, d => foldPoint c.toNat = foldPoint d.toNat
  | .sensitive, c, d => c = d

instance (case : CaseSensitivity) (c d : Char) : Decidable (case.Same c d) := by
  cases case with
  | insensitive => exact inferInstanceAs (Decidable (_ = _))
  | sensitive => exact inferInstanceAs (Decidable (_ = _))

theorem toNat_mem_spellings {case : CaseSensitivity} {c d : Char} :
    d.toNat ∈ case.spellings c ↔ case.Same d c := by
  cases case with
  | insensitive => rw [spellings, variantsOf_eq, mem_caseVariants, Same]
  | sensitive => rw [spellings, List.mem_singleton, Same, Char.toNat_inj]

/-- What a character counts as are the code points of the characters that it counts as. -/
theorem mem_spellings {case : CaseSensitivity} {c : Char} {point : Nat} :
    point ∈ case.spellings c ↔ ∃ d, d.toNat = point ∧ case.Same d c := by
  constructor
  · intro h
    have hpoint : IsPoint point := by
      cases case with
      | insensitive =>
        rw [spellings, variantsOf_eq] at h
        exact isPoint_of_mem_caseVariants ⟨c, rfl⟩ h
      | sensitive => exact ⟨c, (List.mem_singleton.mp h).symm⟩
    obtain ⟨d, rfl⟩ := hpoint
    exact ⟨d, rfl, toNat_mem_spellings.mp h⟩
  · rintro ⟨d, rfl, h⟩
    exact toNat_mem_spellings.mpr h

/-- A character without variants counts as itself alone. -/
theorem same_iff_of_caseVariants {case : CaseSensitivity} {c d : Char}
    (h : caseVariants c.toNat = [c.toNat]) : case.Same c d ↔ d = c := by
  cases case with
  | insensitive => rw [Same, eq_comm, ← mem_caseVariants, h, List.mem_singleton, Char.toNat_inj]
  | sensitive => exact eq_comm

theorem caseVariants_slash : caseVariants '/'.toNat = ['/'.toNat] := by decide +kernel

theorem caseVariants_dot : caseVariants '.'.toNat = ['.'.toNat] := by decide +kernel

theorem same_slash {case : CaseSensitivity} {c : Char} : case.Same '/' c ↔ c = '/' :=
  same_iff_of_caseVariants caseVariants_slash

theorem same_refl {case : CaseSensitivity} {c : Char} : case.Same c c := by
  cases case with
  | insensitive => exact rfl
  | sensitive => exact rfl

theorem same_comm {case : CaseSensitivity} {c d : Char} : case.Same c d ↔ case.Same d c := by
  cases case with
  | insensitive => exact eq_comm
  | sensitive => exact eq_comm

theorem spellings_eq_of_same {case : CaseSensitivity} {c d : Char} (h : case.Same c d) :
    case.spellings c = case.spellings d := by
  cases case with
  | insensitive =>
    have hvariants : caseVariants c.toNat = caseVariants d.toNat := caseVariants_congr h
    rw [spellings, spellings, variantsOf_eq, variantsOf_eq, hvariants]
  | sensitive => rw [show c = d from h]

end CaseSensitivity

def ClassMember.Holds : ClassMember → Char → Prop
  | .char c, d => d = c
  | .range lo hi, d => lo ≤ d ∧ d ≤ hi

theorem ClassMember.covers_iff {case : CaseSensitivity} {m : ClassMember} {c : Char} :
    m.covers (case.spellings c) = true ↔ ∃ d, case.Same d c ∧ m.Holds d := by
  cases m with
  | char e =>
    rw [covers, List.contains_iff_mem, CaseSensitivity.toNat_mem_spellings]
    simp [Holds]
  | range lo hi =>
    simp only [covers, List.any_eq_true, Bool.and_eq_true, decide_eq_true_eq,
      CaseSensitivity.mem_spellings, Holds]
    constructor
    · rintro ⟨_, ⟨d, rfl, hd⟩, hlo, hhi⟩
      exact ⟨d, hd, hlo, hhi⟩
    · rintro ⟨d, hd, hlo, hhi⟩
      exact ⟨d.toNat, ⟨d, rfl, hd⟩, hlo, hhi⟩

def ClassMember.Lists (case : CaseSensitivity) (members : List ClassMember) (c : Char) : Prop :=
  ∃ m ∈ members, ∃ d, case.Same d c ∧ m.Holds d

namespace CharClass

/-- The class admits the character: it is no `/`, and it is listed unless the class is negated. -/
def Admits (case : CaseSensitivity) (cls : CharClass) (c : Char) : Prop :=
  c ≠ '/' ∧ (ClassMember.Lists case cls.members c ↔ cls.negated = false)

theorem accepts_iff {case : CaseSensitivity} {cls : CharClass} {c : Char} :
    cls.accepts (case.spellings c) = true ↔ cls.Admits case c := by
  have hslash : (case.spellings c).contains '/'.toNat = true ↔ c = '/' := by
    rw [List.contains_iff_mem, CaseSensitivity.toNat_mem_spellings, CaseSensitivity.same_slash]
  have hlists : cls.members.any (·.covers (case.spellings c)) = true ↔
      ClassMember.Lists case cls.members c := by
    simp only [List.any_eq_true, ClassMember.covers_iff, ClassMember.Lists]
  rw [accepts, Bool.and_eq_true, Bool.not_eq_true', ← Bool.not_eq_true, hslash, Admits, ← hlists]
  refine and_congr_right fun _ => ?_
  cases cls.members.any (·.covers (case.spellings c)) <;> cases cls.negated <;> decide

theorem admits_anyButSlash {case : CaseSensitivity} {c : Char} :
    anyButSlash.Admits case c ↔ c ≠ '/' := by
  simp [Admits, ClassMember.Lists, anyButSlash]

end CharClass

end IgnoreRules
