import IgnoreRules.Options
import IgnoreRules.Regex.Basic

/-! # Searching a text

Positions count the characters before them. An expression turns the positions at which it may start
into those at which it may then end; nothing is tried twice, so a search takes time polynomial in
the expression and the text. A repetition visits the positions from left to right: since no
expression moves backwards, a position is settled when its turn comes.
-/

namespace IgnoreRules

/-- A text to be searched: the spellings of each of its characters. -/
abbrev Subject := Array (List Nat)

def Subject.ofText (case : CaseSensitivity) (text : Text) : Subject :=
  (text.map case.spellings).toArray

namespace Regex

def union : List Nat → List Nat → List Nat
  | [], right => right
  | left, [] => left
  | i :: left, j :: right =>
    if i < j then i :: union left (j :: right)
    else if j < i then j :: union (i :: left) right
    else i :: union left right
termination_by left right => left.length + right.length

/-- The positions reached by any number of steps from the pending ones, of which none may lie
before `next`; `fuel` counts the positions from `next` on. -/
def sweep (step : Nat → List Nat) : (fuel next : Nat) → (pending : List Nat) → List Nat
  | 0, _, _ => []
  | fuel + 1, next, pending =>
    if pending.isEmpty then []
    else if pending.contains next then
      next :: sweep step fuel (next + 1) (union (step next) (pending.erase next))
    else sweep step fuel (next + 1) pending

/-- Where the expression may end if it starts at one of the given positions. -/
def advance (subject : Subject) : Regex Atom → List Nat → List Nat
  | .empty, starts => starts
  | .atom a, starts => starts.filterMap fun i =>
      match subject[i]? with
      | some spellings => if a.accepts spellings then some (i + 1) else none
      | none => none
  | .textStart, starts => starts.filter (· == 0)
  | .textEnd, starts => starts.filter (· == subject.size)
  | .seq first second, starts => advance subject second (advance subject first starts)
  | .alt left right, starts => union (advance subject left starts) (advance subject right starts)
  | .star body, starts => sweep (fun i => advance subject body [i]) (subject.size + 1) 0 starts
  | .plus body, starts =>
    sweep (fun i => advance subject body [i]) (subject.size + 1) 0 (advance subject body starts)
  | .opt body, starts => union starts (advance subject body starts)

def search (subject : Subject) (r : Regex Atom) : Bool :=
  !(r.advance subject (List.range (subject.size + 1))).isEmpty

end Regex

end IgnoreRules
