import IgnoreRules.Json.Basic

/-! # Records and choices in JSON

A record is written as an object with a member for each field, or as an array of the fields in their
order. In either form later fields may be missing. A choice among several names is written as the
name.
-/

namespace IgnoreRules.Json

inductive UnknownMembers where
  | ignored
  | refused
  deriving DecidableEq

def occurrences (members : List (String × Json)) (name : String) : Nat :=
  members.countP (·.1 = name)

/-- The values of the fields with the given names, as far as they are present. A field that is given
twice refuses the record. -/
def fields? (unknown : UnknownMembers) (names : List String) : Json → Option (List (Option Json))
  | .object members =>
    if names.any fun name => 1 < occurrences members name then none
    else if unknown = .refused && members.any fun member => !names.contains member.1 then none
    else some (names.map fun name => List.lookup name members)
  | .array items =>
    if names.length < items.length then none
    else some (items.map some ++ List.replicate (names.length - items.length) none)
  | _ => none

/-- The name of a choice: a string, or an object with the name for its only member and nothing for
its value. -/
def label? : Json → Option String
  | .string label => some label
  | .object [(label, .null)] => some label
  | _ => none

end IgnoreRules.Json
