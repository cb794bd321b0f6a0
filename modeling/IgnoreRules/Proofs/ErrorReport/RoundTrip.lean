import IgnoreRules.ErrorReport.Codec
import IgnoreRules.Proofs.ErrorReport.Details
import IgnoreRules.Proofs.Json.RoundTrip

/-! # Error reports read back

A report is read from every document that is written as one, and its own document is such a
document. Documents may differ in the order of members, in members of other names, in how often and
in which order details are given, and in whether records are objects or arrays.
-/

namespace IgnoreRules

open Json (IsRecord IsChoice leading)

variable {json : Json}

theorem ErrorKind.ofLabel?_eq_some_iff {label : String} {kind : ErrorKind} :
    ofLabel? label = some kind ↔ label = kind.label := by
  constructor
  · intro h
    unfold ofLabel? at h
    split at h <;> cases h <;> rfl
  · rintro rfl
    cases kind <;> rfl

theorem ErrorKind.ofJson?_eq_some_iff {kind : ErrorKind} :
    ofJson? json = some kind ↔ json.IsChoice kind.label := by
  simp only [ofJson?, Option.bind_eq_some_iff, ofLabel?_eq_some_iff, exists_eq_right,
    Json.label?_eq_some_iff]

def ErrorCode.IsWritten (code : ErrorCode) (json : Json) : Prop :=
  json.IsRecord ["namespace", "code"] [.string code.area, .string code.reason]

theorem ErrorCode.ofJson?_eq_some_iff {code : ErrorCode} :
    ofJson? json = some code ↔ code.IsWritten json := by
  rw [IsWritten, ← Json.fields?_eq_leading_iff (by decide) (by simp)]
  unfold ofJson?
  split
  · next area reason hfields =>
    rw [hfields]
    cases code
    simp [leading]
  · next hother =>
    exact iff_of_false (by simp) fun hfields => hother _ _ hfields

namespace Metadata

def members (details : List (String × String)) : List (String × Json) :=
  details.map fun detail => (detail.1, .string detail.2)

theorem ofMembers?_eq_some_iff {given : List (String × Json)} {metadata result : Metadata} :
    ofMembers? given metadata = some result ↔
      ∃ details, given = members details ∧ metadata.insertAll details = result := by
  induction given generalizing metadata with
  | nil =>
    constructor
    · exact fun h => ⟨[], rfl, Option.some.inj h⟩
    · rintro ⟨details, hgiven, rfl⟩
      obtain rfl : details = [] := List.map_eq_nil_iff.mp hgiven.symm
      rfl
  | cons member given ih =>
    obtain ⟨key, value⟩ := member
    constructor
    · intro h
      unfold ofMembers? at h
      split at h
      · next hnil => cases hnil
      · next hcons =>
        cases hcons
        obtain ⟨details, rfl, rfl⟩ := ih.mp h
        exact ⟨(_, _) :: details, rfl, rfl⟩
      · cases h
    · rintro ⟨details, hgiven, rfl⟩
      obtain ⟨detail, details, rfl, hmember, rfl⟩ := List.map_eq_cons_iff.mp hgiven.symm
      cases hmember
      exact ih.mpr ⟨details, rfl, rfl⟩

/-- Details are read from an object of strings, with the later of two details of one name. -/
theorem ofJson?_eq_some_iff {metadata : Metadata} :
    ofJson? json = some metadata ↔
      ∃ details, json = .object (members details) ∧ empty.insertAll details = metadata := by
  cases json <;> simp [ofJson?, ofMembers?_eq_some_iff]

end Metadata

namespace ErrorReport

def fieldNames : List String := ["kind", "code", "message", "metadata"]

/-- The document is written as the report. There may be no details at all if the report has none. -/
inductive IsWritten (report : ErrorReport) (json : Json) : Prop
  | bare {kind code : Json} (hkind : kind.IsChoice report.kind.label)
    (hcode : report.code.IsWritten code) (hmetadata : report.metadata = .empty)
    (h : json.IsRecord fieldNames [kind, code, .string report.message])
  | detailed {kind code : Json} (details : List (String × String))
    (hkind : kind.IsChoice report.kind.label) (hcode : report.code.IsWritten code)
    (hmetadata : Metadata.empty.insertAll details = report.metadata)
    (h : json.IsRecord fieldNames
      [kind, code, .string report.message, .object (Metadata.members details)])

theorem fields?_eq_leading_iff {values : List Json} (h : values.length ≤ fieldNames.length) :
    json.fields? .ignored fieldNames = some (leading fieldNames values) ↔
      json.IsRecord fieldNames values :=
  Json.fields?_eq_leading_iff (by decide) h

def ReadsDetails (metadata : Metadata) : Option Json → Prop
  | none => metadata = .empty
  | some value => Metadata.ofJson? value = some metadata

theorem ofJson?_eq_some_iff_fields {report : ErrorReport} :
    ofJson? json = some report ↔ ∃ kind code field,
      json.fields? .ignored fieldNames = some [some kind, some code, some (.string report.message),
        field] ∧ ErrorKind.ofJson? kind = some report.kind ∧
        ErrorCode.ofJson? code = some report.code ∧ ReadsDetails report.metadata field := by
  constructor
  · intro h
    unfold ofJson? at h
    split at h
    · next kind code message field hfields =>
      simp only [Option.bind_eq_bind, Option.bind_eq_some_iff] at h
      obtain ⟨_, hkind, _, hcode, h⟩ := h
      cases field with
      | none =>
        cases h
        exact ⟨kind, code, none, hfields, hkind, hcode, rfl⟩
      | some value =>
        obtain ⟨_, hmetadata, h⟩ := Option.bind_eq_some_iff.mp h
        cases h
        exact ⟨kind, code, some value, hfields, hkind, hcode, hmetadata⟩
    · cases h
  · rintro ⟨kind, code, field, hfields, hkind, hcode, hmetadata⟩
    unfold ofJson?
    rw [← fieldNames, hfields]
    cases field with
    | none =>
      simp only [ReadsDetails] at hmetadata
      simp [hkind, hcode, ← hmetadata]
    | some value =>
      simp only [ReadsDetails] at hmetadata
      simp [hkind, hcode, hmetadata]

theorem ofJson?_eq_some_iff {report : ErrorReport} :
    ofJson? json = some report ↔ report.IsWritten json := by
  rw [ofJson?_eq_some_iff_fields]
  simp only [ErrorKind.ofJson?_eq_some_iff, ErrorCode.ofJson?_eq_some_iff]
  constructor
  · rintro ⟨kind, code, field, hfields, hkind, hcode, hmetadata⟩
    cases field with
    | none =>
      exact .bare hkind hcode hmetadata ((fields?_eq_leading_iff (by simp [fieldNames])).mp hfields)
    | some value =>
      obtain ⟨details, rfl, hdetails⟩ := Metadata.ofJson?_eq_some_iff.mp hmetadata
      exact .detailed details hkind hcode hdetails
        ((fields?_eq_leading_iff (by simp [fieldNames])).mp hfields)
  · rintro (⟨hkind, hcode, hmetadata, hrecord⟩ | ⟨details, hkind, hcode, hdetails, hrecord⟩)
    · have hfields := (fields?_eq_leading_iff (by simp [fieldNames])).mpr hrecord
      exact ⟨_, _, none, hfields, hkind, hcode, hmetadata⟩
    · have hfields := (fields?_eq_leading_iff (by simp [fieldNames])).mpr hrecord
      have hmetadata := Metadata.ofJson?_eq_some_iff.mpr ⟨details, rfl, hdetails⟩
      exact ⟨_, _, some _, hfields, hkind, hcode, hmetadata⟩

theorem isWritten_toJson (report : ErrorReport) : report.IsWritten report.toJson := by
  have hkind : IsChoice report.kind.label (.string report.kind.label) := .string
  have hcode : report.code.IsWritten report.code.toJson := .object (by simp)
  rw [toJson]
  split
  · next hnone =>
    exact .bare hkind hcode (Metadata.eq_empty_of_isEmpty hnone) (.object (by simp [fieldNames]))
  · exact .detailed report.metadata.entries hkind hcode report.metadata.insertAll_entries
      (.object (by simp [fieldNames, Metadata.toJson, Metadata.members]))

theorem spelled_toJson (report : ErrorReport) : report.toJson.Spelled := by
  have hstring : ∀ s, Json.Spelled (.string s) := .string
  have hcode : report.code.toJson.Spelled := .object (by simp [hstring])
  have hmetadata : report.metadata.toJson.Spelled := .object fun member hmember => by
    obtain ⟨detail, -, rfl⟩ := List.mem_map.mp hmember
    exact hstring _
  rw [toJson]
  split <;> exact .object (by simp [hstring, hcode, hmetadata])

def withDetails (report : ErrorReport) (details : List (String × String)) : ErrorReport :=
  details.foldl (fun report detail => report.withDetail detail.1 detail.2) report

theorem withDetails_eq (report : ErrorReport) (details : List (String × String)) :
    report.withDetails details =
      { report with metadata := report.metadata.insertAll details } := by
  induction details generalizing report with
  | nil => rfl
  | cons detail details ih =>
    rw [withDetails, List.foldl_cons, ← withDetails, ih]
    rfl

/-- Only a report with details has a member for them. -/
theorem metadata_mem_toJson_iff {report : ErrorReport} {members : List (String × Json)}
    (h : report.toJson = .object members) :
    "metadata" ∈ members.map (·.1) ↔ report.metadata ≠ .empty := by
  rw [toJson] at h
  split at h
  · next hnone =>
    cases h
    simp [Metadata.eq_empty_of_isEmpty hnone]
  · next hsome =>
    cases h
    refine iff_of_true (by simp) fun hempty => hsome ?_
    rw [hempty]
    rfl

/-- Reports are kept by writing and reading. A report is read from its own document, as a value and
as a text, and from all other documents that are written as the report, of which its own is one;
details are left out of it only where there are none. Details may be added in any order as long as
their names differ. If names repeat, each has what is added under it last, and the report is the
same as if nothing else had been added under them. Nothing but the details changes. -/
theorem kept_by_json :
    (∀ report : ErrorReport, ofJson? report.toJson = some report) ∧
      (∀ report : ErrorReport,
        (Json.parse? (Json.compact report.toJson)).bind ofJson? = some report) ∧
      (∀ (report : ErrorReport) (members : List (String × Json)),
        report.toJson = .object members →
          ("metadata" ∈ members.map (·.1) ↔ report.metadata ≠ .empty)) ∧
      (∀ json report, ofJson? json = some report ↔ report.IsWritten json) ∧
      (∀ json report, ofJson? json = some report → ofJson? report.toJson = some report) ∧
      (∀ (report : ErrorReport) (details details' : List (String × String)),
        details.Perm details' → (details.map (·.1)).Nodup →
          report.withDetails details = report.withDetails details') ∧
      (∀ (report : ErrorReport) (details details' : List (String × String)),
        (∀ name, details.reverse.lookup name = details'.reverse.lookup name) →
          report.withDetails details = report.withDetails details') ∧
      ∀ (report : ErrorReport) (details : List (String × String)),
        report.withDetails details =
            { report with metadata := (report.withDetails details).metadata } ∧
          ∀ name, (report.withDetails details).metadata.get? name =
            (details.reverse.lookup name).or (report.metadata.get? name) := by
  have hread : ∀ report : ErrorReport, ofJson? report.toJson = some report := fun report =>
    ofJson?_eq_some_iff.mpr report.isWritten_toJson
  refine ⟨hread, fun report => ?text, fun _ _ => metadata_mem_toJson_iff,
    fun _ _ => ofJson?_eq_some_iff, fun _ report _ => hread report,
    fun report details details' hperm hnodup => ?order, fun report details details' hlast => ?last,
    fun report details => ⟨?frame, fun name => ?found⟩⟩
  case text => rw [Json.parse?_compact report.spelled_toJson, Option.bind_some, hread]
  case order => rw [withDetails_eq, withDetails_eq, Metadata.insertAll_perm hperm hnodup]
  case last => rw [withDetails_eq, withDetails_eq, Metadata.insertAll_congr hlast]
  case frame => rw [withDetails_eq]
  case found => rw [withDetails_eq, Metadata.get?_insertAll]

/-- Two details in either order, one that is given twice, and a document with its members out of
order, a member of another name and a code that is an array. -/
theorem kept_by_json_out_of_order :
    let bare : ErrorReport := { kind := .unexpected, code := .io, message := "gone" }
    let kind : String × Json := ("kind", .string "Unexpected")
    let code : String × Json := ("code", .array [.string "core", .string "io"])
    let message : String × Json := ("message", .string "gone")
    bare.withDetails [("path", "a"), ("io_kind", "NotFound")] =
        bare.withDetails [("io_kind", "NotFound"), ("path", "a")] ∧
      bare.withDetails [("path", "a"), ("path", "b")] = bare.withDetails [("path", "b")] ∧
      ofJson? (.object [message, ("note", .null), code, kind]) = some bare ∧
      ofJson? bare.toJson = some bare := by
  intro bare kind code message
  obtain ⟨-, -, -, hwritten, hagain, horder, hlast, -⟩ := kept_by_json
  have hfields : IsRecord fieldNames [kind.2, code.2, message.2]
      (.object [message, ("note", .null), code, kind]) :=
    .object (by
      simpa [fieldNames, kind, code, message] using List.reverse_perm [kind, code, message])
  have hread := (hwritten _ bare).mpr (.bare .string .array rfl hfields)
  refine ⟨horder bare _ _ (.swap _ _ []) (by decide), hlast bare _ _ fun name => ?_, hread,
    hagain _ bare hread⟩
  simp only [List.reverse_cons, List.reverse_nil, List.nil_append, List.singleton_append,
    Metadata.lookup_cons, List.lookup_nil]
  split <;> rfl

end ErrorReport

end IgnoreRules
