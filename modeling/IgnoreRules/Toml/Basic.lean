import IgnoreRules.Text.Basic

/-! # TOML documents

A document is a table. How a table came about decides what may still be added to it, so every table
keeps its origin.
-/

namespace IgnoreRules

inductive TableOrigin where
  /-- It was written in braces and is complete. -/
  | inline
  /-- A dotted key passed through it. -/
  | dotted
  /-- A header of its own opened it. -/
  | header
  /-- A longer header passed through it; its own header may still follow. -/
  | implied
  deriving DecidableEq

inductive Toml where
  | bool (b : Bool)
  | string (s : String)
  /-- A number or a date, in one word, as it is spelled. -/
  | word (spelling : String)
  /-- A list of values. One that headers in double brackets made can grow. -/
  | array (grows : Bool) (items : List Toml)
  | table (origin : TableOrigin) (members : List (String × Toml))

namespace Toml

def modify (key : String) (change : Option Toml → Option Toml) :
    List (String × Toml) → Option (List (String × Toml))
  | [] => (change none).map fun value => [(key, value)]
  | (k, value) :: rest =>
    if k = key then (change (some value)).map fun value => (key, value) :: rest
    else (modify key change rest).map ((k, value) :: ·)

/-- Gives a dotted key its value. Only tables that dotted keys made can be passed through, and no
key has two values. -/
def assign (value : Toml) : List String → List (String × Toml) → Option (List (String × Toml))
  | [], _ => none
  | [key], members => modify key (fun | none => some value | some _ => none) members
  | key :: keys, members => modify key (fun
      | none => (assign value keys []).map (table .dotted)
      | some (table .dotted inner) => (assign value keys inner).map (table .dotted)
      | some _ => none) members

/-- Makes a change below a path of keys. What is missing on the way becomes an implied table; a list
that grows is entered at its last item. -/
def enter (change : List (String × Toml) → Option (List (String × Toml))) :
    List String → List (String × Toml) → Option (List (String × Toml))
  | [], members => change members
  | key :: keys, members => modify key (fun
      | none => (enter change keys []).map (table .implied)
      | some (table origin inner) =>
        if origin = .inline then none else (enter change keys inner).map (table origin)
      | some (array true items) =>
        match items.getLast? with
        | some (table origin inner) => (enter change keys inner).map fun inner =>
          array true (items.dropLast ++ [table origin inner])
        | _ => none
      | some _ => none) members

/-- Opens the table of a header. It must be new, or implied so far. -/
def openTable (key : String) : List (String × Toml) → Option (List (String × Toml)) :=
  modify key fun
    | none => some (table .header [])
    | some (table .implied inner) => some (table .header inner)
    | some _ => none

def openItem (key : String) : List (String × Toml) → Option (List (String × Toml)) :=
  modify key fun
    | none => some (array true [table .header []])
    | some (array true items) => some (array true (items ++ [table .header []]))
    | some _ => none

end Toml

end IgnoreRules
