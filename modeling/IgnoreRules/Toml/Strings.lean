import IgnoreRules.Text.Hex

/-! # Strings in TOML

Basic strings have escapes, literal strings have none; either kind stands on one line or, in three
quotes, on several. Each reader starts behind the opening quotes and returns the string and what
follows the closing ones.
-/

namespace IgnoreRules.Toml

/-- A character that may stand in a string or a comment: a tab, or no control character. -/
def isPlain (c : Char) : Bool := c = '\t' || (0x20 ≤ c.toNat && c.toNat ≠ 0x7F)

def dropBreak : Text → Option Text
  | '\n' :: rest => some rest
  | '\r' :: '\n' :: rest => some rest
  | _ => none

def codePoint? (digits : Text) : Option Char := do
  let point ← hexNumber? digits
  if point < 0xD800 ∨ (0xDFFF < point ∧ point < 0x110000) then some (Char.ofNat point) else none

def digitEscape? (count : Nat) (text : Text) : Option (Char × Text) :=
  if text.length < count then none
  else (codePoint? (text.take count)).map fun c => (c, text.drop count)

def readEscape : Text → Option (Char × Text)
  | '"' :: rest => some ('"', rest)
  | '\\' :: rest => some ('\\', rest)
  | 'b' :: rest => some ('\x08', rest)
  | 'e' :: rest => some ('\x1B', rest)
  | 'f' :: rest => some ('\x0C', rest)
  | 'n' :: rest => some ('\n', rest)
  | 'r' :: rest => some ('\r', rest)
  | 't' :: rest => some ('\t', rest)
  | 'x' :: rest => digitEscape? 2 rest
  | 'u' :: rest => digitEscape? 4 rest
  | 'U' :: rest => digitEscape? 8 rest
  | _ => none

def pushText (text : Text) (read : Option (Text × Text)) : Option (Text × Text) :=
  read.map fun (body, rest) => (text ++ body, rest)

def readBasic : (fuel : Nat) → Text → Option (Text × Text)
  | 0, _ => none
  | _ + 1, [] => none
  | _ + 1, '"' :: rest => some ([], rest)
  | fuel + 1, '\\' :: rest =>
    match readEscape rest with
    | none => none
    | some (c, rest) => pushText [c] (readBasic fuel rest)
  | fuel + 1, c :: rest => if isPlain c then pushText [c] (readBasic fuel rest) else none

def readLiteral : Text → Option (Text × Text)
  | [] => none
  | '\'' :: rest => some ([], rest)
  | c :: rest => if isPlain c then pushText [c] (readLiteral rest) else none

def skipFolded : Text → Text
  | ' ' :: rest => skipFolded rest
  | '\t' :: rest => skipFolded rest
  | '\n' :: rest => skipFolded rest
  | '\r' :: '\n' :: rest => skipFolded rest
  | text => text

/-- What follows the blanks behind a backslash, if they reach a line break: the line is continued at
the next character that is not blank. -/
def continuation? (text : Text) : Option Text :=
  (dropBreak (text.dropWhile fun c => c = ' ' || c = '\t')).map skipFolded

/-- The end of a string in three quotes: one or two more quotes before the closing ones belong to
the string. -/
def closing? (quote : Char) (text : Text) : Option (Text × Text) :=
  let run := (text.takeWhile (· = quote)).length
  if run < 3 then none
  else
    let inner := min (run - 3) 2
    some (List.replicate inner quote, text.drop (inner + 3))

def readLongBasic : (fuel : Nat) → Text → Option (Text × Text)
  | 0, _ => none
  | fuel + 1, text =>
    match closing? '"' text with
    | some read => some read
    | none =>
      match text with
      | [] => none
      | '\\' :: rest =>
        match continuation? rest with
        | some rest => readLongBasic fuel rest
        | none =>
          match readEscape rest with
          | none => none
          | some (c, rest) => pushText [c] (readLongBasic fuel rest)
      | c :: rest =>
        match dropBreak (c :: rest) with
        | some rest => pushText ['\n'] (readLongBasic fuel rest)
        | none => if isPlain c then pushText [c] (readLongBasic fuel rest) else none

def readLongLiteral : (fuel : Nat) → Text → Option (Text × Text)
  | 0, _ => none
  | fuel + 1, text =>
    match closing? '\'' text with
    | some read => some read
    | none =>
      match text with
      | [] => none
      | c :: rest =>
        match dropBreak (c :: rest) with
        | some rest => pushText ['\n'] (readLongLiteral fuel rest)
        | none => if isPlain c then pushText [c] (readLongLiteral fuel rest) else none

/-- Drops a line break that follows three opening quotes at once. -/
def dropFirstBreak (text : Text) : Text := (dropBreak text).getD text

def readAnyString (fuel : Nat) : Text → Option (Text × Text)
  | '"' :: '"' :: '"' :: rest => readLongBasic fuel (dropFirstBreak rest)
  | '\'' :: '\'' :: '\'' :: rest => readLongLiteral fuel (dropFirstBreak rest)
  | '"' :: rest => readBasic fuel rest
  | '\'' :: rest => readLiteral rest
  | _ => none

end IgnoreRules.Toml
