import IgnoreRules.Config.Resolution
import IgnoreRules.Proofs.Json.Record

/-! # Configurations and overrides as documents

A configuration and overrides are read from the same documents, by two readers. They differ in one
point: the truth values of a configuration may be missing, but they may not be null.
-/

namespace IgnoreRules

/-- A field that must have a value if it is there reads like one that may be null, but is refused
if it is. -/
theorem presentField?_eq_some_iff {α : Type} {read : Json → Option α} (hnull : read .null = none)
    {field : Option Json} {value : Option α} :
    presentField? read field = some value ↔
      optionalField? read field = some value ∧ field ≠ some .null := by
  cases field with
  | none => simp [presentField?, optionalField?]
  | some json => cases json <;> simp [presentField?, optionalField?, hnull]

def Json.TruthsNotNull (json : Json) : Prop :=
  ¬ json.Gives settingNames "ignoreCase" .null ∧
    ¬ json.Gives settingNames "allowRelativePaths" .null

theorem Json.truthsNotNull_iff {json : Json} {ignoreCase allowRelativePaths pathStyle : Option Json}
    (hfields : json.fields? .refused settingNames =
      some [ignoreCase, allowRelativePaths, pathStyle]) :
    json.TruthsNotNull ↔ ignoreCase ≠ some .null ∧ allowRelativePaths ≠ some .null := by
  rw [TruthsNotNull, ← getElem?_fields?_eq_some_iff hfields (by decide),
    ← getElem?_fields?_eq_some_iff hfields (by decide)]
  exact and_congr (not_congr Option.some_inj) (not_congr Option.some_inj)

namespace Overrides

theorem ofJson?_eq_some_iff {json : Json} {overrides : Overrides} :
    ofJson? json = some overrides ↔ ∃ ignoreCase allowRelativePaths pathStyle,
      json.fields? .refused settingNames = some [ignoreCase, allowRelativePaths, pathStyle] ∧
        optionalField? boolOfJson? ignoreCase = some overrides.ignoreCase ∧
        optionalField? boolOfJson? allowRelativePaths = some overrides.allowRelativePaths ∧
        optionalField? PathStyle.ofJson? pathStyle = some overrides.pathStyle := by
  unfold ofJson?
  split
  · next hfields =>
    simp only [Option.bind_eq_bind, Option.bind_eq_some_iff, hfields]
    constructor
    · rintro ⟨ignores, hignore, allows, hallow, style, hstyle, hoverrides⟩
      obtain rfl := Option.some.inj hoverrides
      exact ⟨_, _, _, rfl, hignore, hallow, hstyle⟩
    · rintro ⟨_, _, _, hsame, hignore, hallow, hstyle⟩
      cases hsame
      exact ⟨_, hignore, _, hallow, _, hstyle, rfl⟩
  · next hfields =>
    refine iff_of_false (by simp) ?_
    rintro ⟨_, _, _, hsome, -⟩
    exact hfields _ _ _ hsome

theorem parse_eq_ok_iff {text : Text} {overrides : Overrides} :
    parse text = .ok overrides ↔
      ∃ json, Json.parse? text = some json ∧ ofJson? json = some overrides := by
  rw [← Option.bind_eq_some_iff]
  unfold parse
  cases (Json.parse? text).bind ofJson? <;> simp

end Overrides

namespace Config

theorem ofJson?_eq_some_iff {json : Json} {config : Config} :
    ofJson? json = some config ↔
      json.TruthsNotNull ∧ ∃ overrides, Overrides.ofJson? json = some overrides ∧
        ({} : Config).override overrides = config := by
  simp only [Overrides.ofJson?_eq_some_iff]
  unfold ofJson?
  split
  · next hfields =>
    simp only [Json.truthsNotNull_iff hfields, Option.bind_eq_bind, Option.bind_eq_some_iff,
      @presentField?_eq_some_iff _ boolOfJson? rfl, hfields]
    constructor
    · rintro ⟨ignores, ⟨hignore, hignoreNull⟩, allows, ⟨hallow, hallowNull⟩, style, hstyle,
        hconfig⟩
      refine ⟨⟨hignoreNull, hallowNull⟩, ⟨ignores, allows, style⟩,
        ⟨_, _, _, rfl, hignore, hallow, hstyle⟩, ?_⟩
      rw [← Option.some.inj hconfig, override, Option.or_none]
    · rintro ⟨⟨hignoreNull, hallowNull⟩, overrides, ⟨_, _, _, hsame, hignore, hallow, hstyle⟩, rfl⟩
      cases hsame
      refine ⟨_, ⟨hignore, hignoreNull⟩, _, ⟨hallow, hallowNull⟩, _, hstyle, ?_⟩
      rw [override, Option.or_none]
      rfl
  · next hfields =>
    refine iff_of_false (by simp) ?_
    rintro ⟨-, overrides, ⟨_, _, _, hsome, -⟩, -⟩
    exact hfields _ _ _ hsome

theorem parse_json_eq_ok_iff {text : Text} {config : Config} :
    parse text .json = .ok config ↔
      ∃ json, Json.parse? text = some json ∧ ofJson? json = some config := by
  rw [← Option.bind_eq_some_iff]
  unfold parse
  cases (Json.parse? text).bind ofJson? <;> simp

/-- A text in JSON is a configuration exactly if it is overrides and gives no truth value as null.
The configuration is then what the overrides make of the defaults. -/
theorem parse_json_iff_overrides (text : Text) (config : Config) :
    parse text .json = .ok config ↔
      (∃ json, Json.parse? text = some json ∧ json.TruthsNotNull) ∧
        ∃ overrides, Overrides.parse text = .ok overrides ∧
          ({} : Config).override overrides = config := by
  simp only [parse_json_eq_ok_iff, ofJson?_eq_some_iff, Overrides.parse_eq_ok_iff]
  constructor
  · rintro ⟨json, hparse, hnull, overrides, hread, hconfig⟩
    exact ⟨⟨json, hparse, hnull⟩, overrides, ⟨json, hparse, hread⟩, hconfig⟩
  · rintro ⟨⟨json, hparse, hnull⟩, overrides, ⟨json', hparse', hread⟩, hconfig⟩
    obtain rfl := Option.some.inj (hparse.symm.trans hparse')
    exact ⟨json, hparse, hnull, overrides, hread, hconfig⟩

/-- In the place of a truth value, null leaves overrides unset and makes a configuration refused. -/
example :
    let text := "[null, true]".toList
    Overrides.parse text = .ok { allowRelativePaths := some true } ∧
      parse text .json = .error .invalidJson := by
  decide +kernel

end Config

end IgnoreRules
