import IgnoreRules.Proofs.Config.Schemas
import IgnoreRules.Proofs.Text.Blanks

/-! # Sources of a configuration

Seven things about the sources can be refused. Each is judged by itself, whatever the others hold,
and the first of them in a fixed order decides. If nothing is refused, each setting is taken from
the uppermost layer that has it: the environment, then the overrides, then the file.
-/

namespace IgnoreRules

/-- The outcome of something that is refused for a fault, and has a value if there is none. -/
def settled {ε α : Type} (fault : Option ε) (value : α) : Except ε α :=
  match fault with
  | some error => .error error
  | none => .ok value

section Settled

variable {ε ε' α β : Type}

theorem settled_eq_error_iff {fault : Option ε} {value : α} {error : ε} :
    settled fault value = .error error ↔ fault = some error := by
  cases fault <;> simp [settled]

/-- Of two steps the first that is refused decides. -/
theorem settled_bind {first second : Option ε} {value : α} {next : α → Except ε β} {last : β}
    (h : first = none → next value = settled second last) :
    (settled first value >>= next) = settled (first.or second) last := by
  cases first with
  | some error => rfl
  | none => exact h rfl

theorem settled_bind_pure {fault : Option ε} {value : α} (f : α → β) :
    (settled fault value >>= fun result => pure (f result)) = settled fault (f value) := by
  cases fault <;> rfl

theorem mapError_settled (f : ε → ε') (fault : Option ε) (value : α) :
    (settled fault value).mapError f = settled (fault.map f) value := by
  cases fault <;> rfl

end Settled

/-! ## The environment -/

namespace Environment

variable {α : Type}

def variableNames : List String :=
  [ignoreCaseVariable, allowRelativePathsVariable, pathStyleVariable]

def fault? (environment : Environment) (understand : Text → Option α)
    (refuse : String → Text → EnvironmentError) (name : String) : Option EnvironmentError :=
  (List.lookup name environment).bind fun value =>
    if Text.trim value = [] then some (.emptyValue name)
    else if (understand (Text.trim value)).isNone then some (refuse name (Text.trim value))
    else none

def setting? (environment : Environment) (understand : Text → Option α) (name : String) :
    Option α :=
  (List.lookup name environment).bind fun value => understand (Text.trim value)

theorem read_eq (environment : Environment) (understand : Text → Option α)
    (refuse : String → Text → EnvironmentError) (name : String) :
    environment.read understand refuse name =
      settled (environment.fault? understand refuse name)
        (environment.setting? understand name) := by
  unfold read fault? setting?
  cases List.lookup name environment with
  | none => rfl
  | some value =>
    cases htrim : Text.trim value with
    | nil => simp [htrim, settled]
    | cons c rest => cases hvalue : understand (c :: rest) <;> simp [htrim, hvalue, settled]

def settings (environment : Environment) : Overrides where
  ignoreCase := environment.setting? bool? ignoreCaseVariable
  allowRelativePaths := environment.setting? bool? allowRelativePathsVariable
  pathStyle := environment.setting? PathStyle.ofName? pathStyleVariable

theorem overrides_eq (environment : Environment) :
    environment.overrides =
      settled ((environment.fault? bool? .invalidBool ignoreCaseVariable).or
        ((environment.fault? bool? .invalidBool allowRelativePathsVariable).or
          (environment.fault? PathStyle.ofName? .invalidStyle pathStyleVariable)))
        environment.settings := by
  unfold overrides
  rw [read_eq, read_eq, read_eq]
  refine settled_bind fun _ => settled_bind fun _ => ?_
  exact settled_bind_pure _

end Environment

/-! ## Values up to blanks and case -/

/-- The code of an error and what it says after any words of the system or a parser, without the
details. -/
def ConfigError.summary (error : ConfigError) (words : String) : ErrorCode × String :=
  ((error.report words).code, (error.report words).message)

namespace Environment

variable {α : Type} {environment other : Environment} {name : String}

def CaseBlind (understand : Text → Option α) : Prop :=
  ∀ first second, Text.lowerAscii first = Text.lowerAscii second →
    understand first = understand second

theorem caseBlind_bool? : CaseBlind bool? := by
  intro first second h
  rw [bool?, bool?, h]

theorem caseBlind_ofName? : CaseBlind PathStyle.ofName? := by
  intro first second h
  rw [PathStyle.ofName?, PathStyle.ofName?, Text.lowerAscii_trim, Text.lowerAscii_trim, h]

theorem setting?_eq_of_sameWord {understand : Text → Option α} (hunderstand : CaseBlind understand)
    (h : Option.Rel Text.SameWord (List.lookup name environment) (List.lookup name other)) :
    other.setting? understand name = environment.setting? understand name := by
  unfold setting?
  revert h
  generalize List.lookup name environment = value, List.lookup name other = value'
  rintro (hword | -)
  · exact (hunderstand _ _ hword.lowerAscii_trim_eq).symm
  · rfl

theorem settings_eq_of_sameWord (h : ∀ name ∈ variableNames,
    Option.Rel Text.SameWord (List.lookup name environment) (List.lookup name other)) :
    other.settings = environment.settings := by
  obtain ⟨hignore, hallow, hstyle, -⟩ : _ ∧ _ ∧ _ ∧ True := by simpa [variableNames] using h
  simp only [settings, setting?_eq_of_sameWord caseBlind_bool? hignore,
    setting?_eq_of_sameWord caseBlind_bool? hallow,
    setting?_eq_of_sameWord caseBlind_ofName? hstyle]

/-- The refused value is no more than a detail of the error. -/
theorem map_summary_fault?_eq_of_sameWord {understand : Text → Option α}
    {refuse : String → Text → EnvironmentError} (hunderstand : CaseBlind understand)
    (hrefuse : ∀ first second, (ConfigError.environment (refuse name first)).summary =
      (ConfigError.environment (refuse name second)).summary)
    (h : Option.Rel Text.SameWord (List.lookup name environment) (List.lookup name other)) :
    ((other.fault? understand refuse name).map ConfigError.environment).map ConfigError.summary =
      ((environment.fault? understand refuse name).map ConfigError.environment).map
        ConfigError.summary := by
  unfold fault?
  revert h
  generalize List.lookup name environment = value, List.lookup name other = value'
  rintro (hword | -)
  · have hsame := hunderstand _ _ hword.lowerAscii_trim_eq
    simp only [Option.bind_some, ← hword.trim_eq_nil_iff, ← hsame]
    split
    · rfl
    · split
      · exact congrArg some (hrefuse _ _)
      · rfl
  · rfl

end Environment

/-! ## Documents -/

def boolOfToml? : Toml → Option Bool
  | .bool b => some b
  | _ => none

/-- The value of a name in a table: the last one that can be read. -/
def lastSetting? {α : Type} (read : Toml → Option α) (name : String)
    (members : List (String × Toml)) : Option α :=
  members.reverse.findSome? fun member => if member.1 = name then read member.2 else none

theorem lastSetting?_cons {α : Type} (read : Toml → Option α) (name : String)
    (member : String × Toml) (members : List (String × Toml)) :
    lastSetting? read name (member :: members) =
      (lastSetting? read name members).or (if member.1 = name then read member.2 else none) := by
  rw [lastSetting?, List.reverse_cons, List.findSome?_append, List.findSome?_singleton]
  rfl

def tomlSettings (members : List (String × Toml)) : Overrides where
  ignoreCase := lastSetting? boolOfToml? "ignoreCase" members
  allowRelativePaths := lastSetting? boolOfToml? "allowRelativePaths" members
  pathStyle := lastSetting? PathStyle.ofToml? "pathStyle" members

def documentSettings (content : Text) : ConfigFormat → Overrides
  | .json => ((Json.parse? content).bind Overrides.ofJson?).getD {}
  | .toml => ((Toml.parse? content).map tomlSettings).getD {}

def documentFault? (content : Text) : ConfigFormat → Option ConfigError
  | .json => if ((Json.parse? content).bind Config.ofJson?).isNone then some .invalidJson else none
  | .toml => if ((Toml.parse? content).bind Config.ofToml?).isNone then some .invalidToml else none

def overridesTextSettings (text : Text) : Overrides :=
  ((Json.parse? text).bind Overrides.ofJson?).getD {}

def overridesTextFault? (text : Text) : Option ConfigError :=
  if ((Json.parse? text).bind Overrides.ofJson?).isNone then some .invalidOverrides else none

theorem Overrides.parse_eq (text : Text) :
    parse text = settled (overridesTextFault? text) (overridesTextSettings text) := by
  unfold parse overridesTextFault? overridesTextSettings
  cases (Json.parse? text).bind ofJson? <;> rfl

namespace Config

theorem addTomlSetting?_eq_some {base config : Config} {name : String} {value : Toml}
    (h : base.addTomlSetting? (name, value) = some config) :
    name = "ignoreCase" ∧ (∃ b, value = .bool b ∧ config = { base with ignoreCase := b }) ∨
    name = "allowRelativePaths" ∧
      (∃ b, value = .bool b ∧ config = { base with allowRelativePaths := b }) ∨
    name = "pathStyle" ∧ ∃ style, PathStyle.ofToml? value = some style ∧
      config = { base with pathStyle := some style } := by
  unfold addTomlSetting? at h
  split at h
  · next b hmember =>
    obtain ⟨rfl, rfl⟩ := Prod.mk.inj hmember
    exact .inl ⟨rfl, b, rfl, (Option.some.inj h).symm⟩
  · next b hmember =>
    obtain ⟨rfl, rfl⟩ := Prod.mk.inj hmember
    exact .inr (.inl ⟨rfl, b, rfl, (Option.some.inj h).symm⟩)
  · next other hmember =>
    obtain ⟨rfl, rfl⟩ := Prod.mk.inj hmember
    obtain ⟨style, hstyle, hconfig⟩ := Option.map_eq_some_iff.mp h
    exact .inr (.inr ⟨rfl, style, hstyle, hconfig.symm⟩)
  · cases h

/-- Settings are added one member after the other, each in place of an earlier one of its name. -/
theorem foldlM_addTomlSetting?_eq_some {base config : Config} {members : List (String × Toml)}
    (h : members.foldlM addTomlSetting? base = some config) :
    config = base.override (tomlSettings members) := by
  -- The base takes in what the earlier members set; the later ones are laid over it.
  induction members generalizing base with
  | nil =>
    rw [← Option.some.inj h]
    rfl
  | cons member members ih =>
    obtain ⟨name, value⟩ := member
    rw [List.foldlM_cons, Option.bind_eq_bind] at h
    obtain ⟨middle, hmiddle, hrest⟩ := Option.bind_eq_some_iff.mp h
    rw [ih hrest]
    rcases addTomlSetting?_eq_some hmiddle with ⟨rfl, b, rfl, rfl⟩ | ⟨rfl, b, rfl, rfl⟩ |
      ⟨rfl, style, hstyle, rfl⟩
    · simp [override, tomlSettings, lastSetting?_cons, boolOfToml?]
    · simp [override, tomlSettings, lastSetting?_cons, boolOfToml?]
    · simp [override, tomlSettings, lastSetting?_cons, hstyle]

theorem ofToml?_eq_some {members : List (String × Toml)} {config : Config}
    (h : ofToml? members = some config) :
    config = ({} : Config).override (tomlSettings members) := foldlM_addTomlSetting?_eq_some h

theorem parse_eq (content : Text) (format : ConfigFormat) :
    parse content format =
      settled (documentFault? content format)
        (({} : Config).override (documentSettings content format)) := by
  cases format with
  | json =>
    cases hread : (Json.parse? content).bind ofJson? with
    | none => simp [parse, documentFault?, hread, settled]
    | some config =>
      obtain ⟨json, hparse, hjson⟩ := Option.bind_eq_some_iff.mp hread
      obtain ⟨-, settings, hsettings, hconfig⟩ := ofJson?_eq_some_iff.mp hjson
      simp [parse, documentFault?, documentSettings, hparse, hjson, hsettings, hconfig, settled]
  | toml =>
    cases hread : (Toml.parse? content).bind ofToml? with
    | none => simp [parse, documentFault?, hread, settled]
    | some config =>
      obtain ⟨members, hparse, hmembers⟩ := Option.bind_eq_some_iff.mp hread
      have hconfig := ofToml?_eq_some hmembers
      simp [parse, documentFault?, documentSettings, hparse, hmembers, hconfig, settled]

end Config

/-! ## All sources -/

/-- What can be refused, in the order in which it is looked at. -/
inductive ConfigSource where
  | ignoreCaseVariable
  | allowRelativePathsVariable
  | pathStyleVariable
  | extension
  | reading
  | document
  | overrides
  deriving DecidableEq

def ConfigSource.inOrder : List ConfigSource :=
  [.ignoreCaseVariable, .allowRelativePathsVariable, .pathStyleVariable, .extension, .reading,
    .document, .overrides]

structure ConfigSources where
  environment : Environment
  file : Option ConfigFile := none
  overrides : Option Text := none

namespace ConfigFile

def extensionFault? (file : ConfigFile) : Option ConfigError :=
  match ConfigFormat.ofPath file.path with
  | .error extension => some (.unsupportedFormat extension)
  | .ok _ => none

def readingFault? (file : ConfigFile) : Option ConfigError :=
  match file.reading with
  | .missing => some (.fileNotFound file.path)
  | .denied => some (.fileDenied file.path)
  | .unreadable => some (.fileUnreadable file.path)
  | .text _ => none

def document? (file : ConfigFile) : Option (Text × ConfigFormat) :=
  match ConfigFormat.ofPath file.path, file.reading with
  | .ok format, .text content => some (content, format)
  | _, _ => none

end ConfigFile

namespace ConfigSources

def fault? (sources : ConfigSources) : ConfigSource → Option ConfigError
  | .ignoreCaseVariable =>
    (sources.environment.fault? Environment.bool? .invalidBool
      Environment.ignoreCaseVariable).map .environment
  | .allowRelativePathsVariable =>
    (sources.environment.fault? Environment.bool? .invalidBool
      Environment.allowRelativePathsVariable).map .environment
  | .pathStyleVariable =>
    (sources.environment.fault? PathStyle.ofName? .invalidStyle
      Environment.pathStyleVariable).map .environment
  | .extension => sources.file.bind ConfigFile.extensionFault?
  | .reading => sources.file.bind ConfigFile.readingFault?
  | .document => (sources.file.bind ConfigFile.document?).bind fun (content, format) =>
    documentFault? content format
  | .overrides => sources.overrides.bind overridesTextFault?

def fileSettings (sources : ConfigSources) : Overrides :=
  ((sources.file.bind ConfigFile.document?).map fun (content, format) =>
    documentSettings content format).getD {}

def overrideSettings (sources : ConfigSources) : Overrides :=
  (sources.overrides.map overridesTextSettings).getD {}

def resolve (sources : ConfigSources) : Except ConfigError Config :=
  Config.ofFile sources.file sources.overrides sources.environment

def layered (sources : ConfigSources) : Config :=
  ((({} : Config).override sources.fileSettings).override sources.overrideSettings).override
    sources.environment.settings

theorem readEnvironment_eq (sources : ConfigSources) :
    Config.readEnvironment sources.environment =
      settled ((sources.fault? .ignoreCaseVariable).or
        ((sources.fault? .allowRelativePathsVariable).or (sources.fault? .pathStyleVariable)))
        sources.environment.settings := by
  rw [Config.readEnvironment, Environment.overrides_eq, mapError_settled, Option.map_or,
    Option.map_or]
  rfl

theorem ofFileAlone_eq (sources : ConfigSources) {file : ConfigFile}
    (hfile : sources.file = some file) :
    Config.ofFileAlone file =
      settled ((sources.fault? .extension).or
        ((sources.fault? .reading).or (sources.fault? .document)))
        (({} : Config).override sources.fileSettings) := by
  unfold Config.ofFileAlone fault? fileSettings
  simp only [hfile, Option.bind_some]
  cases hformat : ConfigFormat.ofPath file.path with
  | error extension =>
    have hextension : file.extensionFault? = some (.unsupportedFormat extension) := by
      rw [ConfigFile.extensionFault?, hformat]
    rw [hextension]
    rfl
  | ok format =>
    have hextension : file.extensionFault? = none := by rw [ConfigFile.extensionFault?, hformat]
    rw [hextension, Option.none_or]
    cases hreading : file.reading with
    | text content =>
      have hfault : file.readingFault? = none := by rw [ConfigFile.readingFault?, hreading]
      have hdocument : file.document? = some (content, format) := by
        rw [ConfigFile.document?, hformat, hreading]
      rw [hfault, hdocument, Option.none_or]
      exact Config.parse_eq content format
    | missing | denied | unreadable =>
      rw [ConfigFile.readingFault?, hreading]
      rfl

theorem layer_eq (sources : ConfigSources) (base : Config) (environment : Overrides) :
    base.layer sources.overrides environment =
      settled (sources.fault? .overrides)
        ((base.override sources.overrideSettings).override environment) := by
  unfold Config.layer fault? overrideSettings
  cases sources.overrides with
  | none => rfl
  | some text =>
    simp only [Overrides.parse_eq]
    exact settled_bind_pure _

theorem findSome?_inOrder (f : ConfigSource → Option ConfigError) :
    ConfigSource.inOrder.findSome? f =
      ((f .ignoreCaseVariable).or ((f .allowRelativePathsVariable).or (f .pathStyleVariable))).or
        (((f .extension).or ((f .reading).or (f .document))).or (f .overrides)) := by
  have hcons : ∀ (source : ConfigSource) (later : List ConfigSource),
      (source :: later).findSome? f = (f source).or (later.findSome? f) := by
    intro source later
    rw [List.findSome?_cons]
    cases f source <;> rfl
  simp only [ConfigSource.inOrder, hcons, List.findSome?_nil, Option.or_none, Option.or_assoc]

/-- The first source that is refused decides; if there is none, the layers do. -/
theorem resolve_eq (sources : ConfigSources) :
    sources.resolve = settled (ConfigSource.inOrder.findSome? sources.fault?) sources.layered := by
  rw [findSome?_inOrder, resolve, Config.ofFile, readEnvironment_eq]
  refine settled_bind fun _ => ?_
  -- Without a file there is nothing to refuse in it, and it sets nothing.
  cases hfile : sources.file with
  | none =>
    have hbase : ({} : Config).override sources.fileSettings = {} := by
      rw [fileSettings, hfile]
      rfl
    have hnone : ((sources.fault? .extension).or
        ((sources.fault? .reading).or (sources.fault? .document))) = none := by
      simp [fault?, hfile]
    rw [hnone, Option.none_or, layered, hbase]
    exact layer_eq sources {} sources.environment.settings
  | some file =>
    simp only [ofFileAlone_eq sources hfile]
    exact settled_bind fun _ => layer_eq sources _ _

theorem mem_inOrder (source : ConfigSource) : source ∈ ConfigSource.inOrder := by
  cases source <;> decide

theorem findSome?_fault?_eq_none_iff (sources : ConfigSources) :
    ConfigSource.inOrder.findSome? sources.fault? = none ↔
      ∀ source, sources.fault? source = none := by
  rw [List.findSome?_eq_none_iff]
  exact ⟨fun h source => h source (mem_inOrder source), fun h source _ => h source⟩

def withEnvironment (sources : ConfigSources) (other : Environment) : ConfigSources :=
  { sources with environment := other }

theorem layered_eq (sources : ConfigSources) :
    sources.layered =
      { ignoreCase := (sources.environment.settings.ignoreCase.or
          (sources.overrideSettings.ignoreCase.or sources.fileSettings.ignoreCase)).getD true
        allowRelativePaths := (sources.environment.settings.allowRelativePaths.or
          (sources.overrideSettings.allowRelativePaths.or
            sources.fileSettings.allowRelativePaths)).getD false
        pathStyle := sources.environment.settings.pathStyle.or
          (sources.overrideSettings.pathStyle.or sources.fileSettings.pathStyle) } := by
  simp [layered, Config.override, Option.getD_or]

theorem layered_withEnvironment {sources : ConfigSources} {other : Environment}
    (h : other.settings = sources.environment.settings) :
    (sources.withEnvironment other).layered = sources.layered := by
  simp only [layered, withEnvironment, h, fileSettings, overrideSettings]

/-- Of an environment only the values of the three variables count. -/
theorem resolve_withEnvironment {sources : ConfigSources} {other : Environment}
    (h : ∀ name ∈ Environment.variableNames,
      List.lookup name other = List.lookup name sources.environment) :
    (sources.withEnvironment other).resolve = sources.resolve := by
  obtain ⟨hignore, hallow, hstyle, -⟩ : _ ∧ _ ∧ _ ∧ True := by
    simpa [Environment.variableNames] using h
  have hfault : (sources.withEnvironment other).fault? = sources.fault? := by
    funext source
    cases source <;>
      simp [withEnvironment, fault?, Environment.fault?, hignore, hallow, hstyle]
  have hsettings : other.settings = sources.environment.settings := by
    simp only [Environment.settings, Environment.setting?, hignore, hallow, hstyle]
  rw [resolve_eq, resolve_eq, hfault, layered_withEnvironment hsettings]

/-- Blanks around the values and the case of their ASCII letters show only in the details of an
error. -/
theorem map_summary_fault?_withEnvironment {sources : ConfigSources} {other : Environment}
    (h : ∀ name ∈ Environment.variableNames, Option.Rel Text.SameWord
      (List.lookup name sources.environment) (List.lookup name other)) (source : ConfigSource) :
    ((sources.withEnvironment other).fault? source).map ConfigError.summary =
      (sources.fault? source).map ConfigError.summary := by
  obtain ⟨hignore, hallow, hstyle, -⟩ : _ ∧ _ ∧ _ ∧ True := by
    simpa [Environment.variableNames] using h
  cases source with
  | ignoreCaseVariable =>
    exact Environment.map_summary_fault?_eq_of_sameWord Environment.caseBlind_bool?
      (fun _ _ => rfl) hignore
  | allowRelativePathsVariable =>
    exact Environment.map_summary_fault?_eq_of_sameWord Environment.caseBlind_bool?
      (fun _ _ => rfl) hallow
  | pathStyleVariable =>
    exact Environment.map_summary_fault?_eq_of_sameWord Environment.caseBlind_ofName?
      (fun _ _ => rfl) hstyle
  | _ => rfl

theorem mapError_resolve_withEnvironment {sources : ConfigSources} {other : Environment}
    (h : ∀ name ∈ Environment.variableNames, Option.Rel Text.SameWord
      (List.lookup name sources.environment) (List.lookup name other)) :
    (sources.withEnvironment other).resolve.mapError ConfigError.summary =
      sources.resolve.mapError ConfigError.summary := by
  have hlayered : (sources.withEnvironment other).layered = sources.layered :=
    layered_withEnvironment (Environment.settings_eq_of_sameWord h)
  have hsummaries : Option.map ConfigError.summary ∘ (sources.withEnvironment other).fault? =
      Option.map ConfigError.summary ∘ sources.fault? :=
    funext (map_summary_fault?_withEnvironment h)
  rw [resolve_eq, resolve_eq, mapError_settled, mapError_settled, hlayered, List.map_findSome?,
    List.map_findSome?, hsummaries]

/-- A configuration is refused exactly if one of its sources is, and then for the first of them.
Otherwise each setting is taken from the environment, from the overrides or from the file, in this
order, or else it is the default. Of the environment the three variables count, and of these the
words that they hold, up to blanks around them and the case of ASCII letters. -/
theorem resolve_decided (sources : ConfigSources) :
    ((∃ error, sources.resolve = .error error) ↔
      ∃ source, (sources.fault? source).isSome = true) ∧
    (∀ error, sources.resolve = .error error ↔ ∃ before source after,
      ConfigSource.inOrder = before ++ source :: after ∧ sources.fault? source = some error ∧
        ∀ earlier ∈ before, sources.fault? earlier = none) ∧
    ((∀ source, sources.fault? source = none) → sources.resolve = .ok
      { ignoreCase := (sources.environment.settings.ignoreCase.or
          (sources.overrideSettings.ignoreCase.or sources.fileSettings.ignoreCase)).getD true
        allowRelativePaths := (sources.environment.settings.allowRelativePaths.or
          (sources.overrideSettings.allowRelativePaths.or
            sources.fileSettings.allowRelativePaths)).getD false
        pathStyle := sources.environment.settings.pathStyle.or
          (sources.overrideSettings.pathStyle.or sources.fileSettings.pathStyle) }) ∧
    (∀ other : Environment,
      (∀ name ∈ Environment.variableNames,
        List.lookup name other = List.lookup name sources.environment) →
      (sources.withEnvironment other).resolve = sources.resolve) ∧
    ∀ other : Environment,
      (∀ name ∈ Environment.variableNames, Option.Rel Text.SameWord
        (List.lookup name sources.environment) (List.lookup name other)) →
      other.settings = sources.environment.settings ∧
      (∀ source, ((sources.withEnvironment other).fault? source).map ConfigError.summary =
        (sources.fault? source).map ConfigError.summary) ∧
      (sources.withEnvironment other).resolve.mapError ConfigError.summary =
        sources.resolve.mapError ConfigError.summary := by
  refine ⟨⟨?_, ?_⟩, ?_, ?_, fun other h => resolve_withEnvironment h, fun other h =>
    ⟨Environment.settings_eq_of_sameWord h, map_summary_fault?_withEnvironment h,
      mapError_resolve_withEnvironment h⟩⟩
  · rintro ⟨error, hresolve⟩
    rw [resolve_eq, settled_eq_error_iff] at hresolve
    obtain ⟨source, -, hfault⟩ := List.exists_of_findSome?_eq_some hresolve
    exact ⟨source, by rw [hfault]; rfl⟩
  · rintro ⟨source, hfault⟩
    cases hfirst : ConfigSource.inOrder.findSome? sources.fault? with
    | none =>
      rw [(findSome?_fault?_eq_none_iff sources).mp hfirst source] at hfault
      cases hfault
    | some error => exact ⟨error, by rw [resolve_eq, hfirst]; rfl⟩
  · intro error
    rw [resolve_eq, settled_eq_error_iff, List.findSome?_eq_some_iff]
  · intro hnone
    rw [resolve_eq, (findSome?_fault?_eq_none_iff sources).mpr hnone, layered_eq]
    rfl

/-- The environment names the style, the overrides allow any path, and the file says that case
counts and names another style. A name in other letters and without blanks sets the same style. -/
theorem resolve_decided_by_layers :
    let sources : ConfigSources :=
      { environment := [("HOME", []), ("GITSIFT_PATH_STYLE", " Windows ".toList)]
        file := some ⟨"gitsift.toml".toList,
          .text "ignoreCase = false\npathStyle = 'posix'".toList⟩
        overrides := some "[null, true]".toList }
    sources.resolve = .ok ⟨false, true, some .windows⟩ ∧
      (sources.withEnvironment [("GITSIFT_PATH_STYLE", "wINDOWS".toList)]).resolve.mapError
        ConfigError.summary = sources.resolve.mapError ConfigError.summary := by
  intro sources
  have hnone : ∀ source, sources.fault? source = none := by
    intro source
    cases source <;> decide +kernel
  have hwords : ∀ name ∈ Environment.variableNames, Option.Rel Text.SameWord
      (List.lookup name sources.environment)
      (List.lookup name [("GITSIFT_PATH_STYLE", "wINDOWS".toList)]) := by
    have hspace : isBlank ' ' = true := rfl
    have hstyle : Text.SameWord ([' '] ++ "Windows".toList ++ [' '])
        ([] ++ "wINDOWS".toList ++ []) := .intro (by simp [hspace]) rfl
    simp only [Environment.variableNames, List.forall_mem_cons]
    exact ⟨.none, .none, .some hstyle, by simp⟩
  obtain ⟨-, -, hlayers, -, hother⟩ := resolve_decided sources
  refine ⟨(hlayers hnone).trans (congrArg Except.ok ?_), (hother _ hwords).2.2⟩
  decide +kernel

end ConfigSources

end IgnoreRules
