import IgnoreRules.Toml.Basic
import IgnoreRules.Toml.Strings

/-! # Reading TOML

A document is read line by line: headers choose the table to which the keys that follow belong.
Braces may span lines, hold comments and end in a comma, as brackets may.
-/

namespace IgnoreRules.Toml

def skipSpaces (text : Text) : Text := text.dropWhile fun c => c = ' ' || c = '\t'

def skipComment : Text → Text
  | '#' :: rest => rest.dropWhile isPlain
  | text => text

/-- What follows the end of a line: blanks, perhaps a comment, and a line break or the end of the
document. -/
def endLine? (text : Text) : Option Text :=
  match skipComment (skipSpaces text) with
  | [] => some []
  | rest => dropBreak rest

def skipFiller : (fuel : Nat) → Text → Text
  | 0, text => text
  | fuel + 1, text =>
    let rest := skipComment (skipSpaces text)
    match dropBreak rest with
    | some rest => skipFiller fuel rest
    | none => rest

def isBare (c : Char) : Bool := c.isAlphanum || c = '_' || c = '-'

def readKey (fuel : Nat) (text : Text) : Option (String × Text) :=
  match text with
  | '"' :: rest =>
    (readBasic fuel rest).map fun (body, rest) => (String.ofList body, rest)
  | '\'' :: rest => (readLiteral rest).map fun (body, rest) => (String.ofList body, rest)
  | _ =>
    match text.span isBare with
    | ([], _) => none
    | (key, rest) => some (String.ofList key, rest)

def readKeys : (fuel : Nat) → Text → Option (List String × Text)
  | 0, _ => none
  | fuel + 1, text =>
    match readKey (fuel + 1) (skipSpaces text) with
    | none => none
    | some (key, rest) =>
      match skipSpaces rest with
      | '.' :: rest => (readKeys fuel rest).map fun (keys, rest) => (key :: keys, rest)
      | rest => some ([key], rest)

def isWord (c : Char) : Bool := c.isAlphanum || ['_', '-', '+', '.', ':'].contains c

def readWord (text : Text) : Option (Toml × Text) :=
  match text.span isWord with
  | ([], _) => none
  | (['t', 'r', 'u', 'e'], rest) => some (.bool true, rest)
  | (['f', 'a', 'l', 's', 'e'], rest) => some (.bool false, rest)
  | (spelling, rest) => some (.word (String.ofList spelling), rest)

mutual

def readValue : (fuel : Nat) → Text → Option (Toml × Text)
  | 0, _ => none
  | fuel + 1, text =>
    match text with
    | '"' :: _ | '\'' :: _ =>
      (readAnyString fuel text).map fun (body, rest) => (.string (String.ofList body), rest)
    | '[' :: rest => (readItems fuel rest).map fun (items, rest) => (.array false items, rest)
    | '\x7b' :: rest =>
      (readPairs fuel [] rest).map fun (members, rest) => (.table .inline members, rest)
    | _ => readWord text

def readItems : (fuel : Nat) → Text → Option (List Toml × Text)
  | 0, _ => none
  | fuel + 1, text =>
    match skipFiller fuel text with
    | ']' :: rest => some ([], rest)
    | rest =>
      match readValue fuel rest with
      | none => none
      | some (item, rest) =>
        match skipFiller fuel rest with
        | ']' :: rest => some ([item], rest)
        | ',' :: rest => (readItems fuel rest).map fun (items, rest) => (item :: items, rest)
        | _ => none

def readPairs : (fuel : Nat) → List (String × Toml) → Text → Option (List (String × Toml) × Text)
  | 0, _, _ => none
  | fuel + 1, members, text =>
    match skipFiller fuel text with
    | '\x7d' :: rest => some (members, rest)
    | rest =>
      match readPair fuel members rest with
      | none => none
      | some (members, rest) =>
        match skipFiller fuel rest with
        | '\x7d' :: rest => some (members, rest)
        | ',' :: rest => readPairs fuel members rest
        | _ => none

/-- Reads a key and its value within braces into a table. Lines may also break on either side of the
equals sign. -/
def readPair : (fuel : Nat) → List (String × Toml) → Text → Option (List (String × Toml) × Text)
  | 0, _, _ => none
  | fuel + 1, members, text =>
    match readKeys fuel text with
    | none => none
    | some (keys, rest) =>
      match skipFiller fuel rest with
      | '=' :: rest =>
        match readValue fuel (skipFiller fuel rest) with
        | none => none
        | some (value, rest) => (assign value keys members).map fun members => (members, rest)
      | _ => none

end

def splitLast (keys : List String) : Option (List String × String) :=
  keys.getLast?.map fun last => (keys.dropLast, last)

def readHeader (fuel : Nat) (text : Text) : Option (List String × Bool × Text) :=
  match text with
  | '[' :: '[' :: rest =>
    match readKeys fuel rest with
    | some (keys, ']' :: ']' :: rest) => some (keys, true, rest)
    | _ => none
  | '[' :: rest =>
    match readKeys fuel rest with
    | some (keys, ']' :: rest) => some (keys, false, rest)
    | _ => none
  | _ => none

def openHeader (keys : List String) (grows : Bool) (members : List (String × Toml)) :
    Option (List (String × Toml)) := do
  let (above, last) ← splitLast keys
  enter (if grows then openItem last else openTable last) above members

/-- Reads the lines of a document. The keys of the last header say where new keys belong. -/
def readLines : (fuel : Nat) → List String → List (String × Toml) → Text →
    Option (List (String × Toml))
  | 0, _, _, _ => none
  | _ + 1, _, members, [] => some members
  | fuel + 1, header, members, text =>
    match skipSpaces text with
    | '[' :: rest =>
      match readHeader fuel ('[' :: rest) with
      | none => none
      | some (keys, grows, rest) =>
        match openHeader keys grows members, endLine? rest with
        | some members, some rest => readLines fuel keys members rest
        | _, _ => none
    | line =>
      match endLine? line with
      | some rest => readLines fuel header members rest
      | none =>
        match readKeys fuel line with
        | some (keys, '=' :: rest) =>
          match readValue fuel (skipSpaces rest) with
          | none => none
          | some (value, rest) =>
            match enter (assign value keys) header members, endLine? rest with
            | some members, some rest => readLines fuel header members rest
            | _, _ => none
        | _ => none

/-- Reads a document. A byte order mark may stand before it. No reader takes more than two steps for
a character. -/
def parse? (text : Text) : Option (List (String × Toml)) :=
  let body := match text with
    | '\uFEFF' :: rest => rest
    | _ => text
  readLines (2 * body.length + 3) [] [] body

end IgnoreRules.Toml
