import IgnoreRules.Glob.CharClass

/-! # Regular expressions

The expressions that globs become: single characters, classes, the two ends of the text, and the
usual operators.
-/

namespace IgnoreRules

inductive Atom where
  | literal (c : Char)
  /-- Any character, line breaks and `/` included. -/
  | any
  | oneOf (cls : CharClass)
  deriving DecidableEq

def Atom.accepts (spellings : List Nat) : Atom → Bool
  | .literal c => spellings.contains c.toNat
  | .any => true
  | .oneOf cls => cls.accepts spellings

inductive Regex (α : Type) where
  | empty
  | atom (a : α)
  | textStart
  | textEnd
  | seq (first second : Regex α)
  | alt (left right : Regex α)
  | star (body : Regex α)
  | plus (body : Regex α)
  | opt (body : Regex α)
  deriving DecidableEq

namespace Regex

def char (c : Char) : Regex Atom := .atom (.literal c)

def oneOf (cls : CharClass) : Regex Atom := .atom (.oneOf cls)

def inComponent : Regex Atom := oneOf .anyButSlash

def anyChar : Regex Atom := .atom .any

def concat {α : Type} : List (Regex α) → Regex α
  | [] => .empty
  | [r] => r
  | r :: rs => .seq r (concat rs)

end Regex

end IgnoreRules
