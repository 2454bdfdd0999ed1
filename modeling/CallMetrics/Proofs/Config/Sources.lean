import CallMetrics.Proofs.Config.Precedence

/-! Sources of a text setting. A variable of the environment gives a text without the blanks around it,
overrides give it as it is, and normalizing settings removes the blanks around every text but the
prefix of users. Hence both sources give the same settings just if that prefix has no blanks around
it (`text_sources_agree_iff`); in all other texts they agree. -/

namespace CallMetrics
open Decode Text

namespace Config

/-- No text of the settings has blanks around it. -/
structure Tidy (c : Config) : Prop where
  component : trim c.component = c.component
  userPrefix : trim c.userPrefix = c.userPrefix
  anonymousUser : trim c.anonymousUser = c.anonymousUser
  sinks : ∀ sink ∈ c.sinks, trim sink = sink

theorem tidy_normalized_iff {c : Config} : c.normalized.Tidy ↔ trim c.userPrefix = c.userPrefix := by
  refine ⟨fun h => h.userPrefix, fun h => ⟨trim_trim _, h, trim_trim _, fun sink hsink => ?_⟩⟩
  obtain ⟨raw, -, rfl⟩ := List.mem_map.1 hsink
  exact trim_trim raw

/-- Both fail with one code, or both give the same settings, and these are tidy. -/
def SameTidy : Except LoadError ValidConfig → Except LoadError ValidConfig → Prop
  | .ok v, .ok v' => v' = v ∧ v.config.Tidy
  | .error e, .error e' => e'.toFailure.code = e.toFailure.code
  | _, _ => False

end Config

/-- The settings that are single texts. -/
inductive TextSetting
  | component
  | userPrefix
  | anonymousUser
  deriving DecidableEq, Repr

namespace TextSetting

def field : TextSetting → ConfigField
  | component => .component
  | userPrefix => .userPrefix
  | anonymousUser => .anonymousUser

def source : TextSetting → Variable
  | component => .component
  | userPrefix => .userPrefix
  | anonymousUser => .anonymousUser

/-- The settings of which this one alone is given. -/
def layer (t : TextSetting) (s : String) : Layer :=
  match t with
  | component => { component := some s }
  | userPrefix => { userPrefix := some s }
  | anonymousUser => { anonymousUser := some s }

def text (t : TextSetting) (c : Config) : String :=
  match t with
  | component => c.component
  | userPrefix => c.userPrefix
  | anonymousUser => c.anonymousUser

/-- The environment in which the variable of this setting alone is set. -/
def environment (t : TextSetting) (s : String) : String → Option String :=
  fun name => if name = t.source.name then some s else none

/-- A document that states this setting alone. -/
def document (t : TextSetting) (s : String) : String :=
  Json.compactLine (.record [(t.field.group, .record [(t.field.label, .text s)])])

variable (t : TextSetting) {s : String}

theorem readVariable_environment {α : Type} (v : Variable) (read : ValueReader α) :
    readVariable (t.environment s) v read =
      if v = t.source then (read v s).map some else .ok none := by
  rw [readVariable, environment]
  by_cases hv : v = t.source
  · rw [if_pos (congrArg Variable.name hv), if_pos hv]
  · rw [if_neg (mt Variable.name_inj.1 hv), if_neg hv]

theorem ofEnvironment_environment (hs : trim s ≠ "") :
    Layer.ofEnvironment (t.environment s) = .ok (t.layer (trim s)) := by
  have htext (v : Variable) : readTextValue v s = .ok (trim s) := if_neg hs
  simp only [Layer.ofEnvironment, readVariable_environment, htext]
  cases t <;> rfl

theorem read_document (d : Dialect) (s : String) :
    Layer.read .json d (t.document s) = .ok (t.layer s) := by
  refine Layer.read_json_eq_ok_iff.2 ⟨_, Json.read_compactLine (by simp), ?_⟩
  cases t <;> rfl

/-- The same settings without the blanks around this one. -/
def trimmed (c : Config) : Config := c.apply (t.layer (trim (t.text c)))

variable {t} {c : Config}

theorem faults_trimmed (h : trim (t.text c) ≠ "") : (t.trimmed c).faults = c.faults := by
  cases t with
  | component =>
    show Config.faults { c with component := trim c.component } = c.faults
    have hread : ComponentKey.read (trim c.component) = ComponentKey.read c.component :=
      ComponentKey.read_trim h
    simp only [Config.faults, hread]
  | userPrefix =>
    show Config.faults { c with userPrefix := trim c.userPrefix } = c.faults
    have hslash : '/' ∈ (trim c.userPrefix).toList ↔ '/' ∈ c.userPrefix.toList :=
      mem_trim_iff (by decide)
    simp only [Config.faults, hslash]
  | anonymousUser =>
    show Config.faults { c with anonymousUser := trim c.anonymousUser } = c.faults
    have hread : UserId.read (trim c.anonymousUser) = UserId.read c.anonymousUser :=
      UserId.read_trim h
    simp only [Config.faults, hread]

theorem normalized_trimmed : (t.trimmed c).normalized = t.trimmed c.normalized := by
  cases t <;> rfl

/-- To take a text without its blanks keeps every fault, and trims that text of the outcome. -/
theorem validate_trimmed (h : trim (t.text c) ≠ "") :
    (t.trimmed c).validate.map (·.config) = c.validate.map fun v => t.trimmed v.config := by
  have hfault : (t.trimmed c).fault? = c.fault? := by
    rw [Config.fault?, faults_trimmed h, Config.fault?]
  cases hc : c.fault? with
  | some e => rw [Config.validate_of_fault (hfault.trans hc), Config.validate_of_fault hc]; rfl
  | none =>
    rw [Config.validate_of_accepted (hfault.trans hc), Config.validate_of_accepted hc]
    exact congrArg Except.ok normalized_trimmed

theorem trimmed_of_text (h : trim (t.text c) = t.text c) : t.trimmed c = c := by
  rw [trimmed, h]
  cases t <;> rfl

theorem trimmed_of_tidy (h : c.Tidy) : t.trimmed c = c := by
  apply trimmed_of_text
  cases t with
  | component => exact h.component
  | userPrefix => exact h.userPrefix
  | anonymousUser => exact h.anonymousUser

/-- All texts of valid settings are trimmed, but for the prefix. -/
theorem trimmed_config (v : ValidConfig) (h : t ≠ .userPrefix) : t.trimmed v.config = v.config := by
  apply trimmed_of_text
  cases t with
  | component => exact congrArg Config.component v.normal
  | userPrefix => exact absurd rfl h
  | anonymousUser => exact congrArg Config.anonymousUser v.normal

end TextSetting

namespace Config

/-- What lies below overrides and environment: a JSON document, or a file of either format. -/
inductive Base
  | document (text : Option String)
  | file (file : Option (String × Except FileFault String))

def Base.load : Base → Option String → Layer → Except LoadError ValidConfig
  | document text => Config.load text
  | file source => Config.loadFile source

/-- A base fails by itself, or gives settings that overrides and environment are laid over. -/
theorem Base.load_cases (base : Base) :
    (∃ e, ∀ overrides env, base.load overrides env = .error e) ∨
      ∃ c : Config, ∀ overrides env, base.load overrides env = c.finish overrides env := by
  cases base with
  | document text =>
    cases text with
    | none => exact .inr ⟨{}, fun _ _ => rfl⟩
    | some s =>
      cases hread : readDocument .json s with
      | error fault =>
        exact .inl ⟨.document .json fault, fun _ _ => by simp [Base.load, Config.load, hread]⟩
      | ok c => exact .inr ⟨c, fun _ _ => by simp [Base.load, Config.load, hread]⟩
  | file source =>
    rcases source with _ | ⟨path, fault | s⟩
    · exact .inr ⟨{}, fun _ _ => rfl⟩
    · exact .inl ⟨.file path fault, fun _ _ => rfl⟩
    · cases hformat : ConfigFormat.ofPath path with
      | error e => exact .inl ⟨e, fun _ _ => by simp [Base.load, loadFile, hformat]⟩
      | ok format =>
        cases hread : readDocument format s with
        | error fault =>
          exact .inl ⟨.document format fault, fun _ _ => by
            simp [Base.load, loadFile, hformat, hread]⟩
        | ok c => exact .inr ⟨c, fun _ _ => by simp [Base.load, loadFile, hformat, hread]⟩

variable {t : TextSetting} {s : String}

theorem map_mapError {ε ε' α β : Type} (r : Except ε α) (f : ε → ε') (g : α → β) :
    (r.mapError f).map g = (r.map g).mapError f := by
  cases r <;> rfl

/-- Settings that come from the environment are those that come from overrides, the text trimmed. -/
theorem load_environment (base : Base) (hs : trim s ≠ "") {overrides : String}
    (hoverrides : Layer.read .json jsonPatch overrides = .ok (t.layer s)) :
    (base.load none (t.layer (trim s))).map (·.config) =
      (base.load (some overrides) {}).map fun v => t.trimmed v.config := by
  rcases base.load_cases with ⟨e, hfailed⟩ | ⟨c, hfinish⟩
  · rw [hfailed, hfailed]
    rfl
  · have hnone : layerOf jsonPatch none = .ok {} := rfl
    have hsome : layerOf jsonPatch (some overrides) = .ok (t.layer s) := hoverrides
    rw [hfinish, hfinish, finish_of_ok _ hnone, finish_of_ok _ hsome]
    let given := c.apply (t.layer s)
    have hgiven : trim (t.text given) ≠ "" := by cases t <;> exact hs
    have htrimmed : (c.apply {}).apply (t.layer (trim s)) = t.trimmed given := by cases t <;> rfl
    have hempty : given.apply {} = given := rfl
    rw [htrimmed, hempty, map_mapError, map_mapError, TextSetting.validate_trimmed hgiven]

theorem eq_of_map_config {r r' : Except LoadError ValidConfig}
    (h : r.map (·.config) = r'.map (·.config)) : r = r' := by
  cases r with
  | error e => cases r' <;> cases h; rfl
  | ok v =>
    cases r' with
    | error e => cases h
    | ok v' => exact congrArg Except.ok (ValidConfig.eq_of_config_eq (Except.ok.inj h))

theorem sameTidy_iff {r r' : Except LoadError ValidConfig}
    (h : r.map (·.config) = r'.map fun v => t.trimmed v.config) :
    SameTidy r r' ↔ ∀ v, r' = .ok v → trim v.config.userPrefix = v.config.userPrefix := by
  cases r' with
  | error e =>
    cases r with
    | error e' => cases h; simp [SameTidy]
    | ok v => cases h
  | ok v =>
    cases r with
    | error e => cases h
    | ok v' =>
      have hv' : v'.config = t.trimmed v.config := Except.ok.inj h
      constructor
      · rintro ⟨rfl, htidy⟩ w hw
        cases hw
        exact htidy.userPrefix
      · intro huser
        have htidy : v.config.Tidy := by
          rw [← v.normal]
          exact tidy_normalized_iff.2 (huser v rfl)
        have hsame : v' = v :=
          ValidConfig.eq_of_config_eq (hv'.trans (TextSetting.trimmed_of_tidy htidy))
        exact ⟨hsame.symm, hsame ▸ htidy⟩

end Config

/-- A text that is not blank gives the same settings from the environment as from overrides, over any
base, but for a prefix of users, of which overrides keep the blanks. Hence both sources give the same
outcome without blanks around a text just if that prefix has none. -/
theorem text_sources_agree_iff (base : Config.Base) (t : TextSetting) (s overrides : String)
    (hs : trim s ≠ "") (hoverrides : Layer.read .json jsonPatch overrides = .ok (t.layer s)) :
    ∃ env, Layer.ofEnvironment (t.environment s) = .ok env ∧
      (t ≠ .userPrefix → base.load none env = base.load (some overrides) {}) ∧
      (base.load none env).map (·.config) =
        (base.load (some overrides) {}).map (fun v => t.trimmed v.config) ∧
      (Config.SameTidy (base.load none env) (base.load (some overrides) {}) ↔
        ∀ v, base.load (some overrides) {} = .ok v →
          trim v.config.userPrefix = v.config.userPrefix) := by
  have hmap := Config.load_environment base hs hoverrides
  refine ⟨_, t.ofEnvironment_environment hs, fun ht => ?_, hmap, Config.sameTidy_iff hmap⟩
  have htexts : (fun v : ValidConfig => t.trimmed v.config) = fun v => v.config := by
    funext v
    exact TextSetting.trimmed_config v ht
  rw [htexts] at hmap
  exact Config.eq_of_map_config hmap

/-- Blanks around the component make no difference over an empty TOML file. -/
theorem text_sources_agree_iff_component :
    trim " x\n" ≠ "" ∧
      Layer.read .json jsonPatch (TextSetting.component.document " x\n") =
        .ok (TextSetting.component.layer " x\n") ∧
      ∃ env, Layer.ofEnvironment (TextSetting.component.environment " x\n") = .ok env ∧
        Config.loadFile (some ("a.toml", .ok "")) none env =
          Config.loadFile (some ("a.toml", .ok ""))
            (some (TextSetting.component.document " x\n")) {} := by
  have htext : trim " x\n" ≠ "" := by decide
  have hread := TextSetting.component.read_document jsonPatch " x\n"
  obtain ⟨env, henv, hsame, -⟩ := text_sources_agree_iff (.file (some ("a.toml", .ok "")))
    .component " x\n" _ htext hread
  exact ⟨htext, hread, env, henv, hsame (by decide)⟩

/-- Over the defaults, the blanks around a prefix are lost in the environment and kept in overrides. -/
theorem spaced_prefix_kept :
    ∃ env overrides, Layer.ofEnvironment (TextSetting.userPrefix.environment " u: ") = .ok env ∧
      Layer.read .json jsonPatch overrides = .ok (TextSetting.userPrefix.layer " u: ") ∧
      (Config.load none none env).toOption.map (·.config) = some { userPrefix := "u:" } ∧
      (Config.load none (some overrides) {}).toOption.map (·.config) =
        some { userPrefix := " u: " } ∧
      ¬Config.SameTidy (Config.load none none env) (Config.load none (some overrides) {}) := by
  have hread := TextSetting.userPrefix.read_document jsonPatch " u: "
  generalize TextSetting.userPrefix.document " u: " = overrides at hread
  have hload : (Config.load none (some overrides) {}).toOption.map (·.config) =
      some { userPrefix := " u: " } := by
    have hnone : Config.layerOf Decode.json none = .ok {} := rfl
    have hsome : Config.layerOf jsonPatch (some overrides) = .ok { userPrefix := some " u: " } :=
      hread
    rw [Config.load_of_ok hnone, Config.finish_of_ok _ hsome]
    decide +kernel
  refine ⟨TextSetting.userPrefix.layer (trim " u: "), overrides,
    TextSetting.userPrefix.ofEnvironment_environment (by decide), hread, by decide +kernel, hload, ?_⟩
  intro hsame
  cases hv : Config.load none (some overrides) {} with
  | error e => rw [hv] at hload; cases hload
  | ok v =>
    have hconfig : v.config = { userPrefix := " u: " } := by
      rw [hv] at hload
      exact Option.some.inj hload
    have hmap := Config.load_environment (.document none) (by decide) hread
    have htrim := (Config.sameTidy_iff hmap).1 hsame v hv
    rw [hconfig] at htrim
    exact absurd htrim (by decide)

end CallMetrics
