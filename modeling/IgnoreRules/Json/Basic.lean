import IgnoreRules.Text.Basic

/-! # JSON values

Objects keep their members in the order in which they are written, and keep repeated names: what a
repetition means is for the reader of a document to say.
-/

namespace IgnoreRules

inductive Json where
  | null
  | bool (b : Bool)
  /-- A number as it is spelled. -/
  | number (spelling : String)
  | string (s : String)
  | array (items : List Json)
  | object (members : List (String × Json))

namespace Json

def ofNat (n : Nat) : Json := .number (toString n)

def ofText (text : Text) : Json := .string (String.ofList text)

end Json

end IgnoreRules
