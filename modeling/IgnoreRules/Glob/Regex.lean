import IgnoreRules.Glob.Basic
import IgnoreRules.Regex.Basic

/-! # The regular expression of a glob

A path matches a glob when the expression matches somewhere in it. Each segment fixes its own
separators, so the expression is the beginning, the segments and the ending, one after the other.
-/

namespace IgnoreRules

def Token.regex : Token → Regex Atom
  | .literal c => .char c
  | .star => .star .inComponent
  | .anyChar => .inComponent
  | .charClass cls => .oneOf cls

namespace Segment

/-- The expressions of one component. A lone star must stand for some name, so it is never empty. -/
def component : List Token → List (Regex Atom)
  | [.star] => [.plus .inComponent]
  | ts => ts.map Token.regex

def anyComponents : Regex Atom := .star (.seq (.plus .inComponent) (.char '/'))

/-- The expressions of segments from one separator on. A `**` at the end stands for anything at all
that is not empty, elsewhere for whole components and their separators. -/
def regexes : List Segment → List (Regex Atom)
  | [] => []
  | [.globStar] => [.plus .anyChar]
  | .globStar :: rest => anyComponents :: regexes rest
  | [.tokens ts] => component ts
  | .tokens ts :: rest => component ts ++ .char '/' :: regexes rest

end Segment

namespace Glob

/-- Where a match may begin: after any directories if the glob begins with `**`, at the root if it
is anchored, after any separator otherwise. -/
def beginning (glob : Glob) : List (Regex Atom) × List Segment :=
  match glob.segments with
  | .globStar :: next :: rest =>
    ([.textStart, .opt (.seq (.star .anyChar) (.char '/'))], next :: rest)
  | segments =>
    if glob.anchored then ([.textStart], segments)
    else ([.alt .textStart (.char '/')], segments)

/-- Where a match must end: at a separator that ends the path if only directories match; anywhere if
the glob ends in `**`; otherwise at the end of the path, before or behind its final separator. -/
def ending (glob : Glob) : List (Regex Atom) :=
  if glob.directoryOnly then [.char '/', .textEnd]
  else if glob.segments.getLast? = some .globStar then []
  else [.alt .textEnd (.seq (.char '/') .textEnd)]

def regexes (glob : Glob) : List (Regex Atom) :=
  let (start, segments) := glob.beginning
  start ++ Segment.regexes segments ++ glob.ending

def regex? (glob : Glob) : Option (Regex Atom) :=
  if glob.canMatch then some (.concat glob.regexes) else none

end Glob

end IgnoreRules
