import IgnoreRules.Proofs.Glob.Classes
import IgnoreRules.Proofs.Text.Escapes

/-! # A backslash with nothing behind it

Escapes are read in pairs, so the reader of a body comes to a lone backslash only if the body ends
in a run of backslashes of odd length.
-/

namespace IgnoreRules

theorem ClassScan.exists_of_ofText_closed {text rest : Text} {items : List ClassItem}
    (h : ofText text = .closed items rest) : ∃ front, text = front ++ ']' :: rest := by
  fun_induction ofText text generalizing items with
  | case1 | case3 | case4 | case5 => cases h
  | case2 tail =>
    cases h
    exact ⟨[], rfl⟩
  | case6 c tail _ ih =>
    obtain ⟨inner, hscan, -⟩ := push_eq_closed.mp h
    obtain ⟨front, rfl⟩ := ih hscan
    exact ⟨'\\' :: c :: front, rfl⟩
  | case7 c tail _ _ _ _ _ ih =>
    obtain ⟨inner, hscan, -⟩ := push_eq_closed.mp h
    obtain ⟨front, rfl⟩ := ih hscan
    exact ⟨c :: front, rfl⟩

theorem CharClass.exists_eq_append_splitNegation (text : Text) :
    ∃ front, text = front ++ (splitNegation text).2 := by
  fun_cases splitNegation text with
  | case1 => exact ⟨['!'], rfl⟩
  | case2 => exact ⟨['^'], rfl⟩
  | case3 => exact ⟨[], rfl⟩

namespace Lexeme

open Text

/-- The lexemes of a body, if `dangling` is what a backslash with nothing behind it is read as. -/
def ofBodyWith (dangling : List Lexeme) : Text → List Lexeme
  | [] => []
  | '\\' :: [] => dangling
  | '\\' :: '/' :: rest => .slash :: ofBodyWith dangling rest
  | '\\' :: c :: rest => .token (.literal c) :: ofBodyWith dangling rest
  | '/' :: rest => .slash :: ofBodyWith dangling rest
  | '*' :: rest => pushStar (ofBodyWith dangling rest)
  | '?' :: rest => .token .anyChar :: ofBodyWith dangling rest
  | '[' :: rest =>
    match _scan : ClassScan.ofText (CharClass.splitNegation rest).2 with
    | .closed items after =>
      .token (.charClass ⟨(CharClass.splitNegation rest).1, ClassItem.members items⟩) ::
        ofBodyWith dangling after
    | .unterminated => [.token (.charClass .none)]
    | .interrupted => .token (.literal '[') :: ofBodyWith dangling rest
  | c :: rest => .token (.literal c) :: ofBodyWith dangling rest
termination_by body => body.length
decreasing_by
  any_goals (simp only [List.length_cons]; omega)
  have closed := ClassScan.length_rest_lt _scan
  have split := CharClass.length_splitNegation_le rest
  simp only [List.length_cons]
  omega

/-- What stands behind a closed class ends like the whole body. -/
theorem endsInEscape_of_closed {text after : Text} {items : List ClassItem}
    (h : ClassScan.ofText (CharClass.splitNegation text).2 = .closed items after) :
    endsInEscape ('[' :: text) = endsInEscape after := by
  obtain ⟨mark, hmark⟩ := CharClass.exists_eq_append_splitNegation text
  obtain ⟨front, hfront⟩ := ClassScan.exists_of_ofText_closed h
  have hbody : '[' :: text = ('[' :: mark ++ front) ++ ']' :: after := by
    rw [hmark, hfront]
    simp
  rw [hbody, endsInEscape_append_cons (by decide)]

/-- Where the body ends in no escape, it does not matter what a dangling one is read as. -/
theorem ofBodyWith_eq {dangling : List Lexeme} {body : Text}
    (h : dangling = [.token (.literal '\\')] ∨ endsInEscape body = false) :
    ofBodyWith dangling body = ofBody body := by
  fun_induction ofBodyWith dangling body with
  | case1 => rw [ofBody]
  | case2 =>
    rcases h with rfl | h
    · rw [ofBody]
    · cases h
  | case3 rest ih =>
    rw [endsInEscape_escaped] at h
    rw [ofBody, ih h]
  | case4 c rest hslash ih =>
    rw [endsInEscape_escaped] at h
    rw [ofBody_escaped hslash, ih h]
  | case5 rest ih =>
    rw [endsInEscape_cons (by decide)] at h
    rw [ofBody, ih h]
  | case6 rest ih =>
    rw [endsInEscape_cons (by decide)] at h
    rw [ofBody, ih h]
  | case7 rest ih =>
    rw [endsInEscape_cons (by decide)] at h
    rw [ofBody, ih h]
  | case8 rest items after hscan ih =>
    rw [endsInEscape_of_closed hscan] at h
    rw [ofBody_bracket, hscan, ih h]
  | case9 rest hscan => rw [ofBody_bracket, hscan]
  | case10 rest hscan ih =>
    rw [endsInEscape_cons (by decide)] at h
    rw [ofBody_bracket, hscan, ih h]
  | case11 c rest hlone _ hpair hslash hstar hany hbracket ih =>
    have hescape := ne_escape_of_forall hlone hpair
    rw [endsInEscape_cons hescape] at h
    rw [ofBody_literal hescape hslash hstar hany hbracket, ih h]

/-- A backslash with nothing behind it is read as itself. -/
theorem ofBodyWith_literal (body : Text) : ofBodyWith [.token (.literal '\\')] body = ofBody body :=
  ofBodyWith_eq (Or.inl rfl)

end Lexeme

end IgnoreRules
