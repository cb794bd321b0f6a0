/-! # Text

Everything that is inspected character by character (pattern lines, paths, regular expression
sources, configuration documents) is a list of characters. Messages and names that are only
carried along stay strings.
-/

namespace IgnoreRules

abbrev Text := List Char

def cut {α : Type} (isSeparator : α → Bool) : List α → List α × List (List α)
  | [] => ([], [])
  | a :: as =>
    let (first, others) := cut isSeparator as
    if isSeparator a then ([], first :: others) else (a :: first, others)

/-- The pieces between separators, in order. There is one more piece than there are separators, so
the empty list has one empty piece. -/
def pieces {α : Type} (isSeparator : α → Bool) (as : List α) : List (List α) :=
  let (first, others) := cut isSeparator as
  first :: others

@[simp] theorem pieces_nil {α : Type} (isSeparator : α → Bool) :
    pieces isSeparator [] = [[]] := rfl

theorem pieces_ne_nil {α : Type} (isSeparator : α → Bool) (as : List α) :
    pieces isSeparator as ≠ [] := by
  simp [pieces]

namespace Text

def lowerAscii (text : Text) : Text := text.map Char.toLower

/-- A backslash run of odd length at the end: its last backslash has nothing to escape. -/
def endsInEscape (text : Text) : Bool :=
  (text.reverse.takeWhile (· = '\\')).length % 2 = 1

/-- The lines of a text: it is cut at line feeds, and a line loses one carriage return at its end.
A text that ends in a line feed has an empty last line. -/
def lines (text : Text) : List Text :=
  (pieces (· = '\n') text).map fun line =>
    if line.getLast? = some '\r' then line.dropLast else line

end Text

end IgnoreRules
