import IgnoreRules.Glob.Lexeme

/-! # Reading a glob

A separator at the end makes a glob match directories only; a separator anywhere else anchors it at
the root.
-/

namespace IgnoreRules

/-- What the lexemes between two separators stand for. Exactly two stars and nothing else span
components; any other run of stars is one star. -/
def Segment.ofLexemes (lexemes : List Lexeme) : Segment :=
  if lexemes = [.stars 2] then .globStar
  else .tokens <| lexemes.filterMap fun
    | .slash => none
    | .stars _ => some .star
    | .token t => some t

namespace Glob

def ofLexemes (lexemes : List Lexeme) : Glob :=
  let directoryOnly := lexemes.getLast? = some .slash
  let lexemes := if directoryOnly then lexemes.dropLast else lexemes
  let rooted := lexemes.head? = some .slash
  let lexemes := if rooted then lexemes.tail else lexemes
  let segments := (pieces (· = .slash) lexemes).map Segment.ofLexemes
  { segments := if segments = [.globStar] then [.tokens [.star]] else segments
    anchored := rooted || segments.length > 1
    directoryOnly }

def parse (body : Text) : Glob := ofLexemes (Lexeme.ofBody body)

end Glob

end IgnoreRules
