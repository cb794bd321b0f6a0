import IgnoreRules.Text.Basic

/-! # Configuration files

The name of a file tells its format. What the system returns for a file is data here.
-/

namespace IgnoreRules

inductive ConfigFormat where
  /-- The format of `.json` files, and of files without an extension. -/
  | json
  | toml
  deriving DecidableEq

namespace ConfigFormat

def name : ConfigFormat → String
  | .json => "json"
  | .toml => "toml"

end ConfigFormat

/-- The last component of a path, unless the path ends in `..`. Empty components and `.` do not
count. -/
def fileName? (path : Text) : Option Text :=
  let components := (pieces (· = '/') path).filter fun name => name ≠ [] ∧ name ≠ ['.']
  match components.getLast? with
  | none | some ['.', '.'] => none
  | some name => some name

/-- What follows the last dot of a file name, unless nothing stands before that dot. -/
def extension? (name : Text) : Option Text :=
  match pieces (· = '.') name with
  | [_] | [[], _] => none
  | parts => parts.getLast?

def pathExtension? (path : Text) : Option Text :=
  ((fileName? path).bind extension?).map Text.lowerAscii

def ConfigFormat.ofPath (path : Text) : Except Text ConfigFormat :=
  match pathExtension? path with
  | none => .ok .json
  | some extension =>
    if extension = "json".toList then .ok .json
    else if extension = "toml".toList then .ok .toml
    else .error extension

inductive FileReading where
  | missing
  | denied
  /-- The file cannot be read for another reason, or does not hold text. -/
  | unreadable
  | text (content : Text)
  deriving DecidableEq

def FileReading.ofBytes (bytes : ByteArray) : FileReading :=
  match String.fromUTF8? bytes with
  | none => .unreadable
  | some content => .text content.toList

structure ConfigFile where
  path : Text
  reading : FileReading

end IgnoreRules
