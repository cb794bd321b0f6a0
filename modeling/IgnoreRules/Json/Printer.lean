import IgnoreRules.Json.Basic

/-! # Writing JSON

A compact form without blanks, and an indented one. Within strings only quotation marks, backslashes
and control characters are escaped; all other characters are written as they are.
-/

namespace IgnoreRules.Json

/-- The escape of a character below U+0020 that has no letter. -/
def controlEscape (c : Char) : Text :=
  ['\\', 'u', '0', '0', Nat.digitChar (c.toNat / 16), Nat.digitChar (c.toNat % 16)]

def charForm (c : Char) : Text :=
  if c = '"' then ['\\', '"']
  else if c = '\\' then ['\\', '\\']
  else if c = '\x08' then ['\\', 'b']
  else if c = '\x0C' then ['\\', 'f']
  else if c = '\n' then ['\\', 'n']
  else if c = '\r' then ['\\', 'r']
  else if c = '\t' then ['\\', 't']
  else if c.toNat < 0x20 then controlEscape c
  else [c]

def quoted (s : String) : Text := '"' :: s.toList.flatMap charForm ++ ['"']

def joined (separator : Text) : List Text → Text
  | [] => []
  | [text] => text
  | text :: texts => text ++ separator ++ joined separator texts

def indentation (depth : Nat) : Text := '\n' :: List.replicate (2 * depth) ' '

mutual

def compact : Json → Text
  | .null => ['n', 'u', 'l', 'l']
  | .bool true => ['t', 'r', 'u', 'e']
  | .bool false => ['f', 'a', 'l', 's', 'e']
  | .number spelling => spelling.toList
  | .string s => quoted s
  | .array items => '[' :: joined [','] (compactItems items) ++ [']']
  | .object members => '\x7b' :: joined [','] (compactMembers members) ++ ['\x7d']

def compactItems : List Json → List Text
  | [] => []
  | item :: items => compact item :: compactItems items

def compactMembers : List (String × Json) → List Text
  | [] => []
  | (name, value) :: members => (quoted name ++ ':' :: compact value) :: compactMembers members

end

mutual

def indented (depth : Nat) : Json → Text
  | .null => ['n', 'u', 'l', 'l']
  | .bool true => ['t', 'r', 'u', 'e']
  | .bool false => ['f', 'a', 'l', 's', 'e']
  | .number spelling => spelling.toList
  | .string s => quoted s
  | .array [] => ['[', ']']
  | .array items =>
    '[' :: joined [','] (indentedItems (depth + 1) items) ++ indentation depth ++ [']']
  | .object [] => ['\x7b', '\x7d']
  | .object members =>
    '\x7b' :: joined [','] (indentedMembers (depth + 1) members) ++ indentation depth ++ ['\x7d']

def indentedItems (depth : Nat) : List Json → List Text
  | [] => []
  | item :: items => (indentation depth ++ indented depth item) :: indentedItems depth items

def indentedMembers (depth : Nat) : List (String × Json) → List Text
  | [] => []
  | (name, value) :: members =>
    (indentation depth ++ quoted name ++ ':' :: ' ' :: indented depth value) ::
      indentedMembers depth members

end

end IgnoreRules.Json
