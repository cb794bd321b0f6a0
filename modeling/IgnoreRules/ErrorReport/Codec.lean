import IgnoreRules.ErrorReport.Basic
import IgnoreRules.Json.Record

/-! # Error reports in JSON

Details are left out where there are none. On reading, members of other names are passed over, and
records may be written as arrays.
-/

namespace IgnoreRules

namespace ErrorKind

def label : ErrorKind → String
  | .expected => "Expected"
  | .unexpected => "Unexpected"

def ofLabel? : String → Option ErrorKind
  | "Expected" => some .expected
  | "Unexpected" => some .unexpected
  | _ => none

def ofJson? (json : Json) : Option ErrorKind := json.label?.bind ofLabel?

end ErrorKind

namespace ErrorCode

def toJson (code : ErrorCode) : Json :=
  .object [("namespace", .string code.area), ("code", .string code.reason)]

def ofJson? (json : Json) : Option ErrorCode :=
  match json.fields? .ignored ["namespace", "code"] with
  | some [some (.string area), some (.string reason)] => some ⟨area, reason⟩
  | _ => none

end ErrorCode

namespace Metadata

def toJson (metadata : Metadata) : Json :=
  .object (metadata.entries.map fun (key, value) => (key, .string value))

def ofMembers? : List (String × Json) → Metadata → Option Metadata
  | [], metadata => some metadata
  | (key, .string value) :: members, metadata => ofMembers? members (metadata.insert key value)
  | _ :: _, _ => none

def ofJson? : Json → Option Metadata
  | .object members => ofMembers? members .empty
  | _ => none

end Metadata

namespace ErrorReport

def toJson (report : ErrorReport) : Json :=
  let always : List (String × Json) :=
    [("kind", .string report.kind.label), ("code", report.code.toJson),
      ("message", .string report.message)]
  if report.metadata.entries.isEmpty then .object always
  else .object (always ++ [("metadata", report.metadata.toJson)])

def ofJson? (json : Json) : Option ErrorReport :=
  match json.fields? .ignored ["kind", "code", "message", "metadata"] with
  | some [some kind, some code, some (.string message), metadata] => do
    let kind ← ErrorKind.ofJson? kind
    let code ← ErrorCode.ofJson? code
    let metadata ← match metadata with
      | none => some Metadata.empty
      | some metadata => Metadata.ofJson? metadata
    return { kind, code, message, metadata }
  | _ => none

end ErrorReport

end IgnoreRules
