import IgnoreRules.Glob.Basic

/-! # Lexemes of a glob

A pattern body is read from left to right into separators, runs of stars and tokens. Nothing is
refused: a bracket that a separator interrupts stands for itself, and one that is still open at the
end of the body becomes a class that no character satisfies.
-/

namespace IgnoreRules

structure ClassItem where
  char : Char
  /-- A backslash stood before it, so it is never an operator. -/
  escaped : Bool
  deriving DecidableEq

inductive ClassScan where
  | closed (items : List ClassItem) (rest : Text)
  /-- The body ends first. -/
  | unterminated
  /-- A separator comes first. -/
  | interrupted
  deriving DecidableEq

namespace ClassScan

def push (item : ClassItem) : ClassScan → ClassScan
  | closed items rest => closed (item :: items) rest
  | scan => scan

def ofText : Text → ClassScan
  | [] => unterminated
  | ']' :: rest => closed [] rest
  | '/' :: _ => interrupted
  | '\\' :: [] => unterminated
  | '\\' :: '/' :: _ => interrupted
  | '\\' :: c :: rest => (ofText rest).push ⟨c, true⟩
  | c :: rest => (ofText rest).push ⟨c, false⟩

end ClassScan

/-- Groups items into members. An unescaped `-` between two items makes a range; a range whose ends
are out of order covers nothing and is left out. -/
def ClassItem.members : List ClassItem → List ClassMember
  | lo :: dash :: hi :: rest =>
    if dash = ⟨'-', false⟩ then
      if lo.char ≤ hi.char then .range lo.char hi.char :: members rest else members rest
    else .char lo.char :: members (dash :: hi :: rest)
  | lo :: rest => .char lo.char :: members rest
  | [] => []

def CharClass.splitNegation : Text → Bool × Text
  | '!' :: rest => (true, rest)
  | '^' :: rest => (true, rest)
  | text => (false, text)

inductive Lexeme where
  /-- A separator: `/` or an escaped `/`. -/
  | slash
  | stars (count : Nat)
  | token (t : Token)
  deriving DecidableEq

namespace Lexeme

def pushStar : List Lexeme → List Lexeme
  | .stars count :: rest => .stars (count + 1) :: rest
  | lexemes => .stars 1 :: lexemes

end Lexeme

theorem ClassScan.length_rest_lt {text rest : Text} {items : List ClassItem}
    (h : ClassScan.ofText text = .closed items rest) : rest.length < text.length := by
  fun_induction ClassScan.ofText text generalizing items with
  | case1 => cases h
  | case2 tail => cases h; simp
  | case3 => cases h
  | case4 => cases h
  | case5 => cases h
  | case6 c tail _ ih =>
    cases scan : ClassScan.ofText tail with
    | closed inner after =>
      rw [scan] at h
      cases h
      have := ih scan
      simp only [List.length_cons]
      omega
    | unterminated => rw [scan] at h; cases h
    | interrupted => rw [scan] at h; cases h
  | case7 c tail _ _ _ _ _ ih =>
    cases scan : ClassScan.ofText tail with
    | closed inner after =>
      rw [scan] at h
      cases h
      have := ih scan
      simp only [List.length_cons]
      omega
    | unterminated => rw [scan] at h; cases h
    | interrupted => rw [scan] at h; cases h

theorem CharClass.length_splitNegation_le (text : Text) :
    (CharClass.splitNegation text).2.length ≤ text.length := by
  fun_cases CharClass.splitNegation text <;> simp

namespace Lexeme

def ofBody : Text → List Lexeme
  | [] => []
  | '\\' :: [] => [.token (.literal '\\')]
  | '\\' :: '/' :: rest => .slash :: ofBody rest
  | '\\' :: c :: rest => .token (.literal c) :: ofBody rest
  | '/' :: rest => .slash :: ofBody rest
  | '*' :: rest => pushStar (ofBody rest)
  | '?' :: rest => .token .anyChar :: ofBody rest
  | '[' :: rest =>
    match _scan : ClassScan.ofText (CharClass.splitNegation rest).2 with
    | .closed items after =>
      .token (.charClass ⟨(CharClass.splitNegation rest).1, ClassItem.members items⟩) ::
        ofBody after
    | .unterminated => [.token (.charClass .none)]
    | .interrupted => .token (.literal '[') :: ofBody rest
  | c :: rest => .token (.literal c) :: ofBody rest
termination_by body => body.length
decreasing_by
  any_goals (simp only [List.length_cons]; omega)
  have closed := ClassScan.length_rest_lt _scan
  have split := CharClass.length_splitNegation_le rest
  simp only [List.length_cons]
  omega

end Lexeme

end IgnoreRules
