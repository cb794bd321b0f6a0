import IgnoreRules.Proofs.Config.Schemas
import IgnoreRules.Proofs.Json.RoundTrip

/-! # Settings as members of an object

An object sets what its members say and nothing else. It is refused as a whole if a member has
another name than a setting or a value of another kind, or if a setting is given twice, so no member
is passed over, and the order of the members does not matter.
-/

namespace IgnoreRules

open Json (occurrences)

/-! ## Fields as members -/

def Json.IsStyle (json : Json) (style : PathStyle) : Prop := json.IsChoice style.name

theorem PathStyle.ofLabel?_eq_some_iff {label : String} {style : PathStyle} :
    ofLabel? label = some style ↔ label = style.name := by
  constructor
  · intro h
    unfold ofLabel? at h
    split at h <;> cases h <;> rfl
  · rintro rfl
    cases style <;> rfl

theorem PathStyle.ofJson?_eq_some_iff {json : Json} {style : PathStyle} :
    ofJson? json = some style ↔ json.IsStyle style := by
  simp only [ofJson?, Option.bind_eq_some_iff, ofLabel?_eq_some_iff, exists_eq_right,
    Json.label?_eq_some_iff, Json.IsStyle]

theorem boolOfJson?_eq_some_iff {json : Json} {b : Bool} :
    boolOfJson? json = some b ↔ json = .bool b := by
  cases json <;> simp [boolOfJson?]

section

variable {α : Type} {read : Json → Option α} {members : List (String × Json)} {name : String}
  {setting : Option α}

theorem optionalField?_eq_some_iff (hnull : read .null = none) {field : Option Json} :
    optionalField? read field = some setting ↔
      (∀ value, field = some value → value = .null ∨ ∃ a, read value = some a) ∧
        ∀ a, setting = some a ↔ ∃ value, field = some value ∧ read value = some a := by
  cases field with
  | none => simp [optionalField?, Option.eq_none_iff_forall_ne_some, eq_comm]
  | some value =>
    by_cases hvalue : value = .null
    · simp [optionalField?, hvalue, hnull, Option.eq_none_iff_forall_ne_some, eq_comm]
    · have hplain : optionalField? read (some value) = (read value).map some := by
        unfold optionalField?
        split
        · next hnone => cases hnone
        · next hsome => exact absurd (Option.some.inj hsome) hvalue
        · next hsome => rw [Option.some.inj hsome]
      rw [hplain]
      cases hread : read value with
      | none => simp [hvalue, hread]
      | some a =>
        have hsame : (∀ a', setting = some a' ↔ a = a') ↔ setting = some a :=
          ⟨fun h => (h a).mpr rfl, fun h a' => by rw [h, Option.some_inj]⟩
        simp [hvalue, hread, hsame, eq_comm]

/-- A setting that is not given twice is read from the member that gives it. -/
theorem optionalField?_lookup_eq_some_iff (read : Json → Option α) (hnull : read .null = none)
    (honce : occurrences members name ≤ 1) :
    optionalField? read (List.lookup name members) = some setting ↔
      (∀ value, (name, value) ∈ members → value = .null ∨ ∃ a, read value = some a) ∧
        ∀ a, setting = some a ↔ ∃ value, (name, value) ∈ members ∧ read value = some a := by
  simp only [optionalField?_eq_some_iff hnull, Json.lookup_eq_some_iff honce]

end

/-! ## Members as settings -/

def Json.IsTruth (optional : Bool) (value : Json) : Prop :=
  value = .null ∧ optional = true ∨ ∃ b, value = .bool b

/-- Each member is a setting and has a value of its kind, and no setting is given twice. The path
style may be null, and truth values only where they are optional. -/
structure AreSettings (optional : Bool) (members : List (String × Json)) : Prop where
  named : ∀ member ∈ members, member.1 ∈ settingNames
  once : (members.map (·.1)).Nodup
  ignoreCase : ∀ value, ("ignoreCase", value) ∈ members → value.IsTruth optional
  allowRelativePaths : ∀ value, ("allowRelativePaths", value) ∈ members → value.IsTruth optional
  pathStyle : ∀ value, ("pathStyle", value) ∈ members → value = .null ∨ ∃ style, value.IsStyle style

/-- The overrides set what the members say, and nothing else. -/
structure Overrides.Reflects (overrides : Overrides) (members : List (String × Json)) : Prop where
  ignoreCase : ∀ b, overrides.ignoreCase = some b ↔ ("ignoreCase", .bool b) ∈ members
  allowRelativePaths : ∀ b, overrides.allowRelativePaths = some b ↔
    ("allowRelativePaths", .bool b) ∈ members
  pathStyle : ∀ style, overrides.pathStyle = some style ↔
    ∃ value, ("pathStyle", value) ∈ members ∧ value.IsStyle style

section

variable {members members' : List (String × Json)} {overrides : Overrides} {config : Config}

theorem AreSettings.perm {optional : Bool} (h : AreSettings optional members)
    (hperm : members.Perm members') : AreSettings optional members' := by
  refine ⟨?_, (hperm.map (·.1)).nodup_iff.mp h.once, ?_, ?_, ?_⟩
  · simpa only [hperm.mem_iff] using h.named
  · simpa only [hperm.mem_iff] using h.ignoreCase
  · simpa only [hperm.mem_iff] using h.allowRelativePaths
  · simpa only [hperm.mem_iff] using h.pathStyle

theorem AreSettings.perm_iff {optional : Bool} (hperm : members.Perm members') :
    AreSettings optional members' ↔ AreSettings optional members :=
  ⟨fun h => h.perm hperm.symm, fun h => h.perm hperm⟩

theorem Overrides.Reflects.perm (h : overrides.Reflects members) (hperm : members.Perm members') :
    overrides.Reflects members' := by
  refine ⟨?_, ?_, ?_⟩
  · simpa only [hperm.mem_iff] using h.ignoreCase
  · simpa only [hperm.mem_iff] using h.allowRelativePaths
  · simpa only [hperm.mem_iff] using h.pathStyle

theorem Overrides.Reflects.perm_iff (hperm : members.Perm members') :
    overrides.Reflects members' ↔ overrides.Reflects members :=
  ⟨fun h => h.perm hperm.symm, fun h => h.perm hperm⟩

theorem exists_reflects (h : (members.map (·.1)).Nodup) :
    ∃ overrides : Overrides, overrides.Reflects members := by
  have honce := Json.nodup_iff_countP_le_one.mp h
  refine ⟨⟨(List.lookup "ignoreCase" members).bind boolOfJson?,
    (List.lookup "allowRelativePaths" members).bind boolOfJson?,
    (List.lookup "pathStyle" members).bind PathStyle.ofJson?⟩, ?_, ?_, ?_⟩
  all_goals
    simp [Option.bind_eq_some_iff, Json.lookup_eq_some_iff (honce _), boolOfJson?_eq_some_iff,
      PathStyle.ofJson?_eq_some_iff]

theorem Json.nodup_of_fields {fields : List (Option Json)}
    (h : fields? .refused settingNames (.object members) = some fields) :
    (members.map (·.1)).Nodup := by
  obtain ⟨honce, hknown, -⟩ := fields?_object_eq_some_iff.mp h
  refine nodup_iff_countP_le_one.mpr fun name => ?_
  by_cases hname : name ∈ settingNames
  · exact honce name hname
  · have hnone : members.countP (·.1 = name) = 0 :=
      List.countP_eq_zero.mpr fun member hmember hsame =>
        hname (of_decide_eq_true hsame ▸ hknown rfl member hmember)
    omega

/-- Overrides are read from settings of the right kinds, as what they say. -/
theorem Overrides.ofJson?_object_eq_some_iff :
    ofJson? (.object members) = some overrides ↔
      AreSettings true members ∧ overrides.Reflects members := by
  rw [ofJson?_eq_some_iff]
  constructor
  · rintro ⟨_, _, _, hfields, hignore, hallow, hstyle⟩
    have honce := Json.nodup_of_fields hfields
    have hcount := Json.nodup_iff_countP_le_one.mp honce
    obtain ⟨-, hknown, hlookups⟩ := Json.fields?_object_eq_some_iff.mp hfields
    simp only [settingNames, List.map_cons, List.map_nil, List.cons.injEq, and_true] at hlookups
    obtain ⟨rfl, rfl, rfl⟩ := hlookups
    rw [optionalField?_lookup_eq_some_iff _ rfl (hcount _)] at hignore hallow hstyle
    simp only [boolOfJson?_eq_some_iff, PathStyle.ofJson?_eq_some_iff] at hignore hallow hstyle
    refine ⟨⟨hknown rfl, honce, ?_, ?_, hstyle.1⟩, ?_, ?_, hstyle.2⟩
    · exact fun value hmember => (hignore.1 value hmember).imp_left fun hnull => ⟨hnull, rfl⟩
    · exact fun value hmember => (hallow.1 value hmember).imp_left fun hnull => ⟨hnull, rfl⟩
    · simpa using hignore.2
    · simpa using hallow.2
  · rintro ⟨hsettings, hreflects⟩
    have hcount := Json.nodup_iff_countP_le_one.mp hsettings.once
    refine ⟨_, _, _, Json.fields?_object_eq_some_iff.mpr
      ⟨fun name _ => hcount name, fun _ => hsettings.named, rfl⟩, ?_⟩
    simp only [optionalField?_lookup_eq_some_iff boolOfJson? rfl (hcount _),
      optionalField?_lookup_eq_some_iff PathStyle.ofJson? rfl (hcount _),
      boolOfJson?_eq_some_iff, PathStyle.ofJson?_eq_some_iff]
    refine ⟨⟨?_, ?_⟩, ⟨?_, ?_⟩, hsettings.pathStyle, hreflects.pathStyle⟩
    · exact fun value hmember => (hsettings.ignoreCase value hmember).imp_left And.left
    · simpa using hreflects.ignoreCase
    · exact fun value hmember => (hsettings.allowRelativePaths value hmember).imp_left And.left
    · simpa using hreflects.allowRelativePaths

/-- Where truth values are not optional, they are settings all the same if none of them is null. -/
theorem areSettings_false_iff :
    AreSettings false members ↔
      (Json.object members).TruthsNotNull ∧ AreSettings true members := by
  have htruth : ∀ name, (∀ value, (name, value) ∈ members → value.IsTruth false) ↔
      (name, .null) ∉ members ∧ ∀ value, (name, value) ∈ members → value.IsTruth true := by
    intro name
    constructor
    · refine fun h => ⟨fun hnull => ?_, fun value hmember => ?_⟩
      · rcases h _ hnull with ⟨-, hfalse⟩ | ⟨b, hb⟩
        · cases hfalse
        · cases hb
      · exact Or.inr ((h value hmember).resolve_left fun hnull => by cases hnull.2)
    · rintro ⟨hnull, h⟩ value hmember
      refine Or.inr ((h value hmember).resolve_left ?_)
      rintro ⟨rfl, -⟩
      exact hnull hmember
  constructor
  · rintro ⟨hnamed, honce, hignore, hallow, hstyle⟩
    obtain ⟨hignoreNull, hignore⟩ := (htruth _).mp hignore
    obtain ⟨hallowNull, hallow⟩ := (htruth _).mp hallow
    exact ⟨⟨hignoreNull, hallowNull⟩, hnamed, honce, hignore, hallow, hstyle⟩
  · rintro ⟨⟨hignoreNull, hallowNull⟩, hnamed, honce, hignore, hallow, hstyle⟩
    exact ⟨hnamed, honce, (htruth _).mpr ⟨hignoreNull, hignore⟩,
      (htruth _).mpr ⟨hallowNull, hallow⟩, hstyle⟩

/-- A configuration is read from settings of the right kinds, as the defaults with what they say. -/
theorem Config.ofJson?_object_eq_some_iff :
    ofJson? (.object members) = some config ↔
      AreSettings false members ∧ ∃ overrides : Overrides, overrides.Reflects members ∧
        ({} : Config).override overrides = config := by
  simp only [ofJson?_eq_some_iff, Overrides.ofJson?_object_eq_some_iff, areSettings_false_iff,
    and_assoc, exists_and_left]

/-- The order of the members does not matter. -/
theorem Overrides.ofJson?_object_perm (hperm : members.Perm members') :
    ofJson? (.object members') = ofJson? (.object members) := by
  refine Option.ext fun overrides => ?_
  rw [ofJson?_object_eq_some_iff, ofJson?_object_eq_some_iff, AreSettings.perm_iff hperm,
    Reflects.perm_iff hperm]

theorem Config.ofJson?_object_perm (hperm : members.Perm members') :
    ofJson? (.object members') = ofJson? (.object members) := by
  refine Option.ext fun config => ?_
  rw [ofJson?_object_eq_some_iff, ofJson?_object_eq_some_iff, AreSettings.perm_iff hperm]
  simp only [Overrides.Reflects.perm_iff hperm]

/-! ## Documents -/

theorem Config.parse_json_eq {text : Text} {json : Json} (h : Json.parse? text = some json) :
    parse text .json = (ofJson? json).elim (.error .invalidJson) .ok := by
  cases hread : ofJson? json <;> simp [parse, h, hread]

theorem Overrides.parse_eq_of_json {text : Text} {json : Json} (h : Json.parse? text = some json) :
    parse text = (ofJson? json).elim (.error .invalidOverrides) .ok := by
  cases hread : ofJson? json <;> simp [parse, h, hread]

end

/-- No setting is dropped in silence. A document with these members, in whatever order, is a
configuration exactly if they are settings, and it is overrides exactly if they are settings with
optional truth values. What is read is what the members say, over the defaults in a configuration.
All other documents are refused. -/
theorem settings_kept {text : Text} {members : List (String × Json)}
    (htext : Json.parse? text = some (.object members)) :
    ((∃ config, Config.parse text .json = .ok config) ↔ AreSettings false members) ∧
      ((∃ overrides, Overrides.parse text = .ok overrides) ↔ AreSettings true members) ∧
      (∀ config, Config.parse text .json = .ok config → ∃ overrides : Overrides,
        overrides.Reflects members ∧ ({} : Config).override overrides = config) ∧
      (∀ overrides, Overrides.parse text = .ok overrides → overrides.Reflects members) ∧
      (¬ AreSettings false members → ∃ error, Config.parse text .json = .error error ∧
        ∀ words, (error.report words).kind = .expected ∧
          (error.report words).code.display = "config:invalid_json") ∧
      (¬ AreSettings true members → ∃ error, Overrides.parse text = .error error ∧
        ∀ words, (error.report words).kind = .expected ∧
          (error.report words).code.display = "config:invalid_overrides_json") ∧
      ∀ other members', Json.parse? other = some (.object members') → members.Perm members' →
        Config.parse other .json = Config.parse text .json ∧
          Overrides.parse other = Overrides.parse text := by
  have hconfig : ∀ config, Config.parse text .json = .ok config ↔ AreSettings false members ∧
      ∃ overrides : Overrides, overrides.Reflects members ∧
        ({} : Config).override overrides = config := by
    intro config
    simp [Config.parse_json_eq_ok_iff, htext, Config.ofJson?_object_eq_some_iff]
  have hoverrides : ∀ overrides, Overrides.parse text = .ok overrides ↔
      AreSettings true members ∧ overrides.Reflects members := by
    intro overrides
    simp [Overrides.parse_eq_ok_iff, htext, Overrides.ofJson?_object_eq_some_iff]
  have hconfigRead : (∃ config, Config.parse text .json = .ok config) ↔
      AreSettings false members := by
    constructor
    · exact fun ⟨config, h⟩ => ((hconfig config).mp h).1
    · intro h
      obtain ⟨overrides, hreflects⟩ := exists_reflects h.once
      exact ⟨_, (hconfig _).mpr ⟨h, overrides, hreflects, rfl⟩⟩
  have hoverridesRead : (∃ overrides, Overrides.parse text = .ok overrides) ↔
      AreSettings true members := by
    constructor
    · exact fun ⟨overrides, h⟩ => ((hoverrides overrides).mp h).1
    · intro h
      obtain ⟨overrides, hreflects⟩ := exists_reflects h.once
      exact ⟨overrides, (hoverrides overrides).mpr ⟨h, hreflects⟩⟩
  refine ⟨hconfigRead, hoverridesRead, fun config h => ((hconfig config).mp h).2,
    fun overrides h => ((hoverrides overrides).mp h).2, fun hnone => ?_, fun hnone => ?_, ?_⟩
  · have hrefused := Config.parse_json_eq htext
    cases hread : Config.ofJson? (.object members) with
    | none => exact ⟨_, by rw [hrefused, hread, Option.elim_none], fun _ => ⟨rfl, rfl⟩⟩
    | some config =>
      rw [hread, Option.elim_some] at hrefused
      exact absurd (hconfigRead.mp ⟨config, hrefused⟩) hnone
  · have hrefused := Overrides.parse_eq_of_json htext
    cases hread : Overrides.ofJson? (.object members) with
    | none => exact ⟨_, by rw [hrefused, hread, Option.elim_none], fun _ => ⟨rfl, rfl⟩⟩
    | some overrides =>
      rw [hread, Option.elim_some] at hrefused
      exact absurd (hoverridesRead.mp ⟨overrides, hrefused⟩) hnone
  · intro other members' hother hperm
    rw [Config.parse_json_eq hother, Config.parse_json_eq htext, Config.ofJson?_object_perm hperm,
      Overrides.parse_eq_of_json hother, Overrides.parse_eq_of_json htext,
      Overrides.ofJson?_object_perm hperm]
    exact ⟨rfl, rfl⟩

/-- A tagged path style before a truth value, and the two the other way round. -/
theorem settings_kept_tagged :
    let style : String × Json := ("pathStyle", .object [("windows", .null)])
    let truth : String × Json := ("ignoreCase", .bool false)
    let text := Json.compact (.object [style, truth])
    let other := Json.compact (.object [truth, style])
    Config.parse other .json = Config.parse text .json ∧ ∃ config,
      Config.parse text .json = .ok config ∧ config.ignoreCase = false ∧
        config.pathStyle = some .windows := by
  intro style truth text other
  have hstyle : style.2.Spelled := .object (by simp [Json.Spelled.null])
  have htruth : truth.2.Spelled := .bool false
  have htext : Json.parse? text = some (.object [style, truth]) :=
    Json.parse?_compact (.object (by simp [hstyle, htruth]))
  have hother : Json.parse? other = some (.object [truth, style]) :=
    Json.parse?_compact (.object (by simp [hstyle, htruth]))
  have hsettings : AreSettings false [style, truth] :=
    { named := by simp [style, truth, settingNames]
      once := by decide
      ignoreCase := by simp [style, truth, Json.IsTruth]
      allowRelativePaths := by simp [style, truth]
      pathStyle := fun value hmember => .inr ⟨.windows, by
        obtain rfl : value = style.2 := by simpa [style, truth] using hmember
        exact .member⟩ }
  obtain ⟨hread, -, hreflects, -, -, -, hperm⟩ := settings_kept htext
  refine ⟨(hperm other _ hother (.swap truth style [])).1, ?_⟩
  obtain ⟨config, hconfig⟩ := hread.mpr hsettings
  obtain ⟨overrides, hoverrides, rfl⟩ := hreflects config hconfig
  have hcase := (hoverrides.ignoreCase false).mpr (by simp [truth])
  have hwindows := (hoverrides.pathStyle .windows).mpr ⟨_, List.mem_cons_self, .member⟩
  exact ⟨_, hconfig, by simp [Config.override, hcase], by simp [Config.override, hwindows]⟩

end IgnoreRules
