import IgnoreRules.Text.Basic

/-! # Blank characters

The Unicode property White_Space, and trimming by it.
-/

namespace IgnoreRules

/-- The code points of the property White_Space. -/
def isBlankPoint (point : Nat) : Bool :=
  (9 ≤ point && point ≤ 13) || point == 0x20 || point == 0x85 || point == 0xA0 || point == 0x1680
    || (0x2000 ≤ point && point ≤ 0x200A) || point == 0x2028 || point == 0x2029 || point == 0x202F
    || point == 0x205F || point == 0x3000

def isBlank (c : Char) : Bool := isBlankPoint c.toNat

namespace Text

def trimStart (text : Text) : Text := text.dropWhile isBlank

def trimEnd (text : Text) : Text := (text.reverse.dropWhile isBlank).reverse

def trim (text : Text) : Text := trimEnd (trimStart text)

end Text

end IgnoreRules
