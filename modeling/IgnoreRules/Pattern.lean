import IgnoreRules.Text.Blank

/-! # Pattern lines

One line of an ignore file carries at most one pattern. Blank lines, comments and lines that end in
an escape with nothing behind it carry none; a leading `!` makes the pattern negative; blanks at the
end do not count unless they are escaped.
-/

namespace IgnoreRules

structure Pattern where
  origin : Text
  /-- The glob, without the `!` of a negative pattern. -/
  body : Text
  negative : Bool
  deriving DecidableEq

namespace Pattern

def byteOrderMark : Char := '\uFEFF'

def dropMark : Text → Text
  | c :: rest => if c = byteOrderMark then rest else c :: rest
  | [] => []

/-- Drops the blanks at the end. If that leaves an escape with nothing behind it, the first of the
blanks was escaped, and one space takes its place. -/
def trimBody (text : Text) : Text :=
  let kept := Text.trimEnd text
  if kept.length = text.length then text
  else if Text.endsInEscape kept then kept ++ [' ']
  else kept

def dropMarkerEscape : Text → Text
  | '\\' :: '!' :: rest => '!' :: rest
  | '\\' :: '#' :: rest => '#' :: rest
  | text => text

/-- A line without a pattern: nothing but blanks, a comment, or an escape without a character. -/
def isIdle (line : Text) : Bool :=
  line.all isBlank || line.head? = some '#' || Text.endsInEscape line

def splitNegation : Text → Bool × Text
  | '!' :: rest => (true, rest)
  | text => (false, text)

def ofLine? (origin : Text) : Option Pattern :=
  let line := dropMark origin
  if isIdle line then none
  else
    let (negative, rest) := splitNegation line
    let body := dropMarkerEscape (trimBody rest)
    if body.isEmpty then none else some { origin, body, negative }

end Pattern

end IgnoreRules
