import IgnoreRules.Regex.Basic
import IgnoreRules.Text.Alphanumeric
import IgnoreRules.Text.Hex

/-! # The source text of a regular expression

Operators are spelled as usual, and every character that could be read as one is escaped: by a
backslash outside classes, by its code point within them.
-/

namespace IgnoreRules

def operatorChars : List Char :=
  ['\\', '.', '+', '*', '?', '(', ')', '|', '[', ']', '{', '}', '^', '$', '#', '&', '-', '~']

def literalSource (c : Char) : Text :=
  if c ∈ operatorChars then ['\\', c] else [c]

namespace ClassMember

def charSource (c : Char) : Text :=
  if isAlphanumeric c then [c]
  else ['\\', 'x', '{'] ++ hexDigits c.toNat ++ ['}']

def source : ClassMember → Text
  | .char c => charSource c
  | .range lo hi => charSource lo ++ '-' :: charSource hi

end ClassMember

/-- A class as it is written: `/` joins the members of a negated class and is taken away from the
others. -/
def CharClass.source (cls : CharClass) : Text :=
  let members := cls.members.flatMap (·.source)
  if cls.negated then ['[', '^', '/'] ++ members ++ [']']
  else ['['] ++ members ++ ['&', '&', '[', '^', '/', ']', ']']

def Atom.source : Atom → Text
  | .literal c => literalSource c
  | .any => ['.']
  | .oneOf cls => cls.source

namespace Regex

def group (text : Text) : Text := ['(', '?', ':'] ++ text ++ [')']

/-- The operand of a repetition: an atom stands alone, all else is grouped. -/
def operand {α : Type} (text : Text) : Regex α → Text
  | .atom _ => text
  | _ => group text

def source : Regex Atom → Text
  | .empty => []
  | .atom a => a.source
  | .textStart => ['^']
  | .textEnd => ['$']
  | .seq first second => first.source ++ second.source
  | .alt left right => group (left.source ++ '|' :: right.source)
  | .star body => operand body.source body ++ ['*']
  | .plus body => operand body.source body ++ ['+']
  | .opt body => operand body.source body ++ ['?']

end Regex

end IgnoreRules
