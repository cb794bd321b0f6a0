import IgnoreRules.Text.Basic

/-! # Hexadecimal numbers -/

namespace IgnoreRules

def hexValue? (c : Char) : Option Nat :=
  if '0' ≤ c ∧ c ≤ '9' then some (c.toNat - '0'.toNat)
  else if 'a' ≤ c ∧ c ≤ 'f' then some (c.toNat - 'a'.toNat + 10)
  else if 'A' ≤ c ∧ c ≤ 'F' then some (c.toNat - 'A'.toNat + 10)
  else none

/-- The number behind the digits that are already read, given its value. -/
def hexNumberFrom? (value : Nat) : Text → Option Nat
  | [] => some value
  | c :: rest => do hexNumberFrom? (16 * value + (← hexValue? c)) rest

def hexNumber? (digits : Text) : Option Nat := hexNumberFrom? 0 digits

def hexDigits (n : Nat) : Text := (Nat.toDigits 16 n).map Char.toUpper

end IgnoreRules
