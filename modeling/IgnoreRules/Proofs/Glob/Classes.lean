import IgnoreRules.Proofs.Glob.Boundaries
import IgnoreRules.Proofs.Glob.Components

/-! # The classes of a glob

A class that is read from a body lists no `/` and no range that is out of order, so it has nothing
to admit only if it lists nothing. Whether a body has such a class can be seen from its brackets.
-/

namespace IgnoreRules

def ClassMember.IsProper : ClassMember → Prop
  | .char c => c ≠ '/'
  | .range lo hi => lo ≠ '/' ∧ hi ≠ '/' ∧ lo ≤ hi

namespace ClassItem

def allReversed : List ClassItem → Bool
  | [] => true
  | lo :: dash :: hi :: rest =>
    dash = ⟨'-', false⟩ && !decide (lo.char ≤ hi.char) && allReversed rest
  | _ => false

theorem isEmpty_members (items : List ClassItem) : (members items).isEmpty = allReversed items := by
  fun_induction members items with
  | case1 lo hi rest horder ih => simp [allReversed, horder]
  | case2 lo hi rest horder ih => simp [allReversed, horder, ih]
  | case3 lo dash hi rest hdash ih => simp [allReversed, hdash]
  | case4 lo rest hshort ih =>
    match rest with
    | [] | [_] => rfl
    | dash :: hi :: others => exact absurd rfl (hshort dash hi others)
  | case5 => rfl

theorem isProper_of_mem_members {items : List ClassItem} (h : ∀ item ∈ items, item.char ≠ '/') :
    ∀ m ∈ members items, m.IsProper := by
  fun_induction members items with
  | case1 lo hi rest horder ih =>
    simp only [List.forall_mem_cons] at h
    obtain ⟨hlo, -, hhi, hrest⟩ := h
    exact List.forall_mem_cons.mpr ⟨⟨hlo, hhi, horder⟩, ih hrest⟩
  | case2 lo hi rest horder ih =>
    simp only [List.forall_mem_cons] at h
    exact ih h.2.2.2
  | case3 lo dash hi rest hdash ih =>
    obtain ⟨hlo, hrest⟩ := List.forall_mem_cons.mp h
    exact List.forall_mem_cons.mpr ⟨hlo, ih hrest⟩
  | case4 lo rest hshort ih =>
    obtain ⟨hlo, hrest⟩ := List.forall_mem_cons.mp h
    exact List.forall_mem_cons.mpr ⟨hlo, ih hrest⟩
  | case5 => simp

end ClassItem

namespace ClassScan

theorem push_eq_closed {scan : ClassScan} {item : ClassItem} {items : List ClassItem} {rest : Text} :
    scan.push item = .closed items rest ↔
      ∃ inner, scan = .closed inner rest ∧ items = item :: inner := by
  cases scan <;> simp [push, eq_comm, and_comm]

theorem ne_slash_of_mem_items {text rest : Text} {items : List ClassItem}
    (h : ofText text = .closed items rest) : ∀ item ∈ items, item.char ≠ '/' := by
  fun_induction ofText text generalizing items with
  | case1 | case3 | case4 | case5 => cases h
  | case2 tail =>
    cases h
    simp
  | case6 c tail hslash ih =>
    obtain ⟨inner, hscan, rfl⟩ := push_eq_closed.mp h
    exact List.forall_mem_cons.mpr ⟨hslash, ih hscan⟩
  | case7 c tail _ hslash _ _ _ ih =>
    obtain ⟨inner, hscan, rfl⟩ := push_eq_closed.mp h
    exact List.forall_mem_cons.mpr ⟨hslash, ih hscan⟩

end ClassScan

namespace Lexeme

def isHollow : Lexeme → Bool
  | .token (.charClass cls) => cls.isEmpty
  | _ => false

/-- The body has a bracket that is still open at its end, or one that is closed, not negated and
lists nothing but ranges whose ends are out of order. -/
def hasHollowClass : Text → Bool
  | [] => false
  | '\\' :: [] => false
  | '\\' :: _ :: rest => hasHollowClass rest
  | '[' :: rest =>
    match _scan : ClassScan.ofText (CharClass.splitNegation rest).2 with
    | .closed items after =>
      !(CharClass.splitNegation rest).1 && ClassItem.allReversed items || hasHollowClass after
    | .unterminated => true
    | .interrupted => hasHollowClass rest
  | _ :: rest => hasHollowClass rest
termination_by body => body.length
decreasing_by
  any_goals (simp only [List.length_cons]; omega)
  have closed := ClassScan.length_rest_lt _scan
  have split := CharClass.length_splitNegation_le rest
  simp only [List.length_cons]
  omega

theorem any_isHollow_pushStar (lexemes : List Lexeme) :
    (pushStar lexemes).any isHollow = lexemes.any isHollow := by
  unfold pushStar
  split <;> rfl

theorem hasHollowClass_eq (body : Text) : hasHollowClass body = (ofBody body).any isHollow := by
  fun_induction hasHollowClass body with
  | case1 =>
    rw [ofBody]
    rfl
  | case2 =>
    rw [ofBody]
    rfl
  | case3 c rest ih =>
    by_cases hslash : c = '/'
    · subst hslash
      rw [ofBody, ih]
      rfl
    · rw [ofBody_escaped hslash, ih]
      rfl
  | case4 rest items after hscan ih =>
    rw [ofBody_bracket, hscan, List.any_cons, ← ih, isHollow, CharClass.isEmpty,
      ClassItem.isEmpty_members]
  | case5 rest hscan =>
    rw [ofBody_bracket, hscan]
    rfl
  | case6 rest hscan ih =>
    rw [ofBody_bracket, hscan, ih]
    rfl
  | case7 c rest hlone hpair hbracket ih =>
    rw [ih]
    by_cases hslash : c = '/'
    · subst hslash
      rw [ofBody]
      rfl
    by_cases hstar : c = '*'
    · subst hstar
      rw [ofBody, any_isHollow_pushStar]
    by_cases hany : c = '?'
    · subst hany
      rw [ofBody]
      rfl
    rw [ofBody_literal (ne_escape_of_forall hlone hpair) hslash hstar hany hbracket]
    rfl

theorem isProper_of_mem_ofBody {body : Text} {cls : CharClass}
    (h : Lexeme.token (.charClass cls) ∈ ofBody body) : ∀ m ∈ cls.members, m.IsProper := by
  fun_induction ofBody body with
  | case1 => cases h
  | case2 => simp at h
  | case6 rest ih => exact ih (mem_pushStar h)
  | case8 rest items after hscan ih =>
    rcases List.mem_cons.mp h with heq | h
    · cases heq
      exact ClassItem.isProper_of_mem_members (ClassScan.ne_slash_of_mem_items hscan)
    · exact ih h
  | case9 =>
    obtain rfl : cls = .none := by simpa using h
    simp [CharClass.none]
  | _ =>
    rename_i ih
    exact ih (by simpa using h)

end Lexeme

namespace Glob

def HasClass (glob : Glob) (cls : CharClass) : Prop :=
  ∃ ts, .tokens ts ∈ glob.segments ∧ .charClass cls ∈ ts

variable {body : Text} {cls : CharClass}

theorem hasClass_parse_iff :
    (parse body).HasClass cls ↔ Lexeme.token (.charClass cls) ∈ Lexeme.ofBody body := by
  constructor
  · rintro ⟨ts, hts, hcls⟩
    exact (mem_ofBody_of_mem_tokens hts hcls).resolve_left Token.noConfusion
  · exact exists_tokens_of_mem_ofBody

theorem isProper_of_hasClass (h : (parse body).HasClass cls) : ∀ m ∈ cls.members, m.IsProper :=
  Lexeme.isProper_of_mem_ofBody (hasClass_parse_iff.mp h)

/-- A pattern is impossible exactly if some class of its body has nothing to admit. -/
theorem canMatch_parse (body : Text) : (parse body).canMatch = !Lexeme.hasHollowClass body := by
  rw [Bool.eq_iff_iff, canMatch_iff (segments_parse_ne_nil body), Lexeme.hasHollowClass_eq,
    Bool.not_eq_true', List.any_eq_false]
  constructor
  · intro hlisted l hl
    cases l with
    | slash | stars _ => simp [Lexeme.isHollow]
    | token t =>
      cases t with
      | literal _ | star | anyChar => simp [Lexeme.isHollow]
      | charClass cls =>
        obtain ⟨ts, hts, hcls⟩ := hasClass_parse_iff.mpr hl
        rw [Lexeme.isHollow, hlisted ts hts cls hcls]
        exact Bool.false_ne_true
  · intro hnone ts hts cls hcls
    exact Bool.eq_false_iff.mpr (hnone _ (hasClass_parse_iff.mp ⟨ts, hts, hcls⟩))

end Glob

end IgnoreRules
