import IgnoreRules.Json.Basic
import IgnoreRules.Text.Hex

/-! # Reading JSON

The grammar is the strict one: no comments, no trailing commas, no byte order mark, no unescaped
control characters, and no half of a surrogate pair without the other.
-/

namespace IgnoreRules.Json

def skipBlanks (text : Text) : Text :=
  text.dropWhile fun c => c = ' ' || c = '\n' || c = '\r' || c = '\t'

def letterEscape? : Char → Option Char
  | '"' => some '"'
  | '\\' => some '\\'
  | '/' => some '/'
  | 'b' => some '\x08'
  | 'f' => some '\x0C'
  | 'n' => some '\n'
  | 'r' => some '\r'
  | 't' => some '\t'
  | _ => none

def isHighHalf (unit : Nat) : Bool := 0xD800 ≤ unit && unit ≤ 0xDBFF

def isLowHalf (unit : Nat) : Bool := 0xDC00 ≤ unit && unit ≤ 0xDFFF

def joinHalves (high low : Nat) : Char :=
  Char.ofNat (0x10000 + (high - 0xD800) * 0x400 + (low - 0xDC00))

def pushChar (c : Char) (read : Option (Text × Text)) : Option (Text × Text) :=
  read.map fun (body, rest) => (c :: body, rest)

def readString : Text → Option (Text × Text)
  | [] => none
  | '"' :: rest => some ([], rest)
  | '\\' :: 'u' :: a :: b :: c :: d :: rest =>
    match hexNumber? [a, b, c, d] with
    | none => none
    | some unit =>
      if isHighHalf unit then
        match rest with
        | '\\' :: 'u' :: e :: f :: g :: h :: rest =>
          match hexNumber? [e, f, g, h] with
          | none => none
          | some low =>
            if isLowHalf low then pushChar (joinHalves unit low) (readString rest) else none
        | _ => none
      else if isLowHalf unit then none
      else pushChar (Char.ofNat unit) (readString rest)
  | '\\' :: c :: rest =>
    match letterEscape? c with
    | none => none
    | some escaped => pushChar escaped (readString rest)
  | c :: rest => if c.toNat < 0x20 then none else pushChar c (readString rest)

def spanDigits (text : Text) : Text × Text := text.span Char.isDigit

/-- Reads the whole part of a number: no zero stands before other digits. -/
def readWhole (text : Text) : Option (Text × Text) :=
  match spanDigits text with
  | ([], _) => none
  | ('0' :: _ :: _, _) => none
  | split => some split

def readFraction : Text → Option (Text × Text)
  | '.' :: rest =>
    match spanDigits rest with
    | ([], _) => none
    | (digits, rest) => some ('.' :: digits, rest)
  | text => some ([], text)

def spanSign : Text → Text × Text
  | '+' :: rest => (['+'], rest)
  | '-' :: rest => (['-'], rest)
  | text => ([], text)

def readExponent : Text → Option (Text × Text)
  | [] => some ([], [])
  | c :: rest =>
    if c = 'e' ∨ c = 'E' then
      let (sign, rest) := spanSign rest
      match spanDigits rest with
      | ([], _) => none
      | (digits, rest) => some (c :: (sign ++ digits), rest)
    else some ([], c :: rest)

def readNumber (text : Text) : Option (Json × Text) := do
  let (sign, text) := match text with
    | '-' :: rest => (['-'], rest)
    | _ => ([], text)
  let (whole, text) ← readWhole text
  let (fraction, text) ← readFraction text
  let (exponent, text) ← readExponent text
  return (.number (String.ofList (sign ++ whole ++ fraction ++ exponent)), text)

def readQuoted : Text → Option (String × Text)
  | '"' :: rest => (readString rest).map fun (body, rest) => (String.ofList body, rest)
  | _ => none

mutual

def readValue : (fuel : Nat) → Text → Option (Json × Text)
  | 0, _ => none
  | fuel + 1, text =>
    match skipBlanks text with
    | 'n' :: 'u' :: 'l' :: 'l' :: rest => some (.null, rest)
    | 't' :: 'r' :: 'u' :: 'e' :: rest => some (.bool true, rest)
    | 'f' :: 'a' :: 'l' :: 's' :: 'e' :: rest => some (.bool false, rest)
    | '"' :: rest => (readString rest).map fun (body, rest) => (.ofText body, rest)
    | '[' :: rest =>
      match skipBlanks rest with
      | ']' :: rest => some (.array [], rest)
      | rest => (readItems fuel rest).map fun (items, rest) => (.array items, rest)
    | '{' :: rest =>
      match skipBlanks rest with
      | '}' :: rest => some (.object [], rest)
      | rest => (readMembers fuel rest).map fun (members, rest) => (.object members, rest)
    | rest => readNumber rest

def readItems : (fuel : Nat) → Text → Option (List Json × Text)
  | 0, _ => none
  | fuel + 1, text =>
    match readValue fuel text with
    | none => none
    | some (item, rest) =>
      match skipBlanks rest with
      | ']' :: rest => some ([item], rest)
      | ',' :: rest => (readItems fuel rest).map fun (items, rest) => (item :: items, rest)
      | _ => none

def readMembers : (fuel : Nat) → Text → Option (List (String × Json) × Text)
  | 0, _ => none
  | fuel + 1, text =>
    match readQuoted (skipBlanks text) with
    | none => none
    | some (name, rest) =>
      match skipBlanks rest with
      | ':' :: rest =>
        match readValue fuel rest with
        | none => none
        | some (value, rest) =>
          match skipBlanks rest with
          | '}' :: rest => some ([(name, value)], rest)
          | ',' :: rest =>
            (readMembers fuel rest).map fun (members, rest) => ((name, value) :: members, rest)
          | _ => none
      | _ => none

end

/-- Reads a document: one value with nothing but blanks around it. Every step consumes a character,
so the length of the text bounds the steps. -/
def parse? (text : Text) : Option Json :=
  match readValue (2 * text.length + 2) text with
  | some (value, rest) => if (skipBlanks rest).isEmpty then some value else none
  | none => none

end IgnoreRules.Json
