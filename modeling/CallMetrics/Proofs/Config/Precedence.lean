import CallMetrics.Config.Load
import CallMetrics.Proofs.Config.Variables
import CallMetrics.Proofs.Json.Reading

/-! Where settings come from. Each setting is taken from the highest source that gives it, whatever
the sources say of the other settings, and only what is taken is validated (`load_eq_validate`). -/

namespace CallMetrics
open Decode

/-- A JSON text that can be read as a layer. -/
def Settles (d : Dialect) (s : String) : Prop :=
  ∃ v, Json.read s = some v ∧ v.Shaped d ∧
    ∀ f : ConfigField, (optional d (f.read d) (f.stated? v)).isSome

namespace ConfigField

def given? (d : Dialect) (f : ConfigField) (s : String) : Option f.Content :=
  ((Json.read s).bind fun v => optional d (f.read d) (f.stated? v)).join

/-- The setting as the highest source gives it: the environment, then the overrides, then the
document; else the default. -/
def layered (f : ConfigField) (document overrides : Option String) (env : Layer) : f.Content :=
  ((env.get f).or ((overrides.bind (f.given? jsonPatch)).or
    (document.bind (f.given? Decode.json)))).getD (({} : Config).get f)

end ConfigField

namespace Layer
variable {d : Dialect} {s : String} {l : Layer}

theorem read_eq_ok_iff {format : ConfigFormat} :
    Layer.read format d s = .ok l ↔ ∃ v, format.read s = some v ∧ ofValue? d v = some l := by
  -- of any text: in a proof about a written one, the unfolding would run the reader on it
  unfold Layer.read
  cases format.read s with
  | none => simp
  | some v => cases hv : ofValue? d v <;> simp [hv]

theorem read_json_eq_ok_iff :
    Layer.read .json d s = .ok l ↔ ∃ v, Json.read s = some v ∧ ofValue? d v = some l :=
  read_eq_ok_iff

theorem exists_read_json_iff : (∃ l, Layer.read .json d s = .ok l) ↔ Settles d s := by
  constructor
  · rintro ⟨l, hl⟩
    obtain ⟨v, hread, hv⟩ := read_json_eq_ok_iff.1 hl
    exact ⟨v, hread, isSome_ofValue?_iff.1 (Option.isSome_of_eq_some hv)⟩
  · rintro ⟨v, hread, hv⟩
    obtain ⟨l, hl⟩ := Option.isSome_iff_exists.1 (isSome_ofValue?_iff.2 hv)
    exact ⟨l, read_json_eq_ok_iff.2 ⟨v, hread, hl⟩⟩

theorem get_of_read_json (h : Layer.read .json d s = .ok l) (f : ConfigField) :
    l.get f = f.given? d s := by
  obtain ⟨v, hread, hv⟩ := read_json_eq_ok_iff.1 h
  have hfield := (ofValue?_eq_some_iff.1 hv).2 f
  rw [ConfigField.given?, hread, Option.bind_some, hfield, Option.join_some]

theorem exists_error_of_not_settles (h : ¬Settles d s) :
    ∃ fault, Layer.read .json d s = .error fault := by
  cases hread : Layer.read .json d s with
  | error fault => exact ⟨fault, rfl⟩
  | ok l => exact absurd (exists_read_json_iff.1 ⟨l, hread⟩) h

end Layer

namespace Config
variable {document overrides : Option String} {env : Layer}

def layerOf (d : Dialect) : Option String → Except DocumentFault Layer
  | none => .ok {}
  | some s => Layer.read .json d s

section Load
variable {base patch : Layer} {fault : DocumentFault}

theorem finish_of_error (c : Config) (h : layerOf jsonPatch overrides = .error fault) :
    c.finish overrides env = .error (.overrides fault) := by
  cases overrides with
  | none => cases h
  | some s =>
    have hread : Layer.read .json jsonPatch s = .error fault := h
    simp only [finish, hread, Except.map]

theorem finish_of_ok (c : Config) (h : layerOf jsonPatch overrides = .ok patch) :
    c.finish overrides env = ((c.apply patch).apply env).validate.mapError .settings := by
  cases overrides with
  | none =>
    obtain rfl := Except.ok.inj h
    rfl
  | some s =>
    have hread : Layer.read .json jsonPatch s = .ok patch := h
    simp only [finish, hread, Except.map]

theorem finish_eq_ok_iff (c : Config) {v : ValidConfig} : c.finish overrides env = .ok v ↔
    ∃ patch, layerOf jsonPatch overrides = .ok patch ∧
      ((c.apply patch).apply env).validate = .ok v := by
  cases hpatch : layerOf jsonPatch overrides with
  | error fault => simp [finish_of_error c hpatch]
  | ok patch => simp [finish_of_ok c hpatch, mapError_eq_ok_iff]

theorem load_of_error (h : layerOf Decode.json document = .error fault) :
    load document overrides env = .error (.document .json fault) := by
  cases document with
  | none => cases h
  | some s =>
    have hread : Layer.read .json (ConfigFormat.dialect .json) s = .error fault := h
    simp only [load, readDocument, hread, Except.map]

theorem load_of_ok (h : layerOf Decode.json document = .ok base) :
    load document overrides env = (({} : Config).apply base).finish overrides env := by
  cases document with
  | none =>
    obtain rfl := Except.ok.inj h
    rfl
  | some s =>
    have hread : Layer.read .json (ConfigFormat.dialect .json) s = .ok base := h
    simp only [load, readDocument, hread, Except.map]

theorem exists_error_layerOf {d : Dialect} {text : Option String}
    (h : ∃ s ∈ text, ¬Settles d s) : ∃ fault, layerOf d text = .error fault := by
  obtain ⟨s, rfl, hs⟩ := h
  exact Layer.exists_error_of_not_settles hs

theorem exists_ok_layerOf {d : Dialect} {text : Option String} (h : ∀ s ∈ text, Settles d s) :
    ∃ l, layerOf d text = .ok l ∧ ∀ f : ConfigField, l.get f = text.bind (f.given? d) := by
  cases text with
  | none => exact ⟨{}, rfl, fun f => by cases f <;> rfl⟩
  | some s =>
    obtain ⟨l, hl⟩ := Layer.exists_read_json_iff.2 (h s rfl)
    exact ⟨l, hl, fun f => Layer.get_of_read_json hl f⟩

/-- When all texts can be read, the settings that are validated are the layered ones. -/
theorem load_eq_validate (env : Layer) (hdocument : ∀ s ∈ document, Settles Decode.json s)
    (hoverrides : ∀ s ∈ overrides, Settles jsonPatch s) :
    ∃ c : Config, (∀ f : ConfigField, c.get f = f.layered document overrides env) ∧
      load document overrides env = c.validate.mapError .settings := by
  obtain ⟨base, hbase, hbaseFields⟩ := exists_ok_layerOf hdocument
  obtain ⟨patch, hpatch, hpatchFields⟩ := exists_ok_layerOf hoverrides
  refine ⟨((({} : Config).apply base).apply patch).apply env, fun f => ?_, ?_⟩
  · -- what is applied later wins
    have hlayers : ∀ (e p b : Option f.Content) (v : f.Content),
        e.getD (p.getD (b.getD v)) = (e.or (p.or b)).getD v := by
      intro e p b v
      cases e <;> cases p <;> cases b <;> rfl
    rw [get_apply, get_apply, get_apply, hbaseFields, hpatchFields, hlayers, ConfigField.layered]
  · rw [load_of_ok hbase, finish_of_ok _ hpatch]

end Load

/-- The same settings, or reports with the same code and the same message. -/
def SameOutcome : Except Failure ValidConfig → Except LoadError ValidConfig → Prop
  | .ok v, .ok v' => v = v'
  | .error failure, .error e =>
    failure.code = e.toFailure.code ∧ failure.message = e.toFailure.message
  | _, _ => False

/-- A document gives the same whether it is parsed by itself or loaded without other sources. -/
theorem sameOutcome_parse_load (s : String) :
    SameOutcome (Config.parse .json s) (load (some s) none {}) := by
  rw [Config.parse, load]
  cases readDocument .json s with
  | error fault => exact ⟨rfl, rfl⟩
  | ok c =>
    have hfinish : c.finish none {} = c.validate.mapError .settings := rfl
    simp only [hfinish]
    cases c.validate with
    | error e => exact ⟨rfl, rfl⟩
    | ok v => rfl

/-- Other texts that say the same of each setting that no higher source gives. -/
def Covers (document overrides document' overrides' : Option String) (env : Layer) : Prop :=
  ∀ f : ConfigField, env.get f = none →
    overrides'.bind (f.given? jsonPatch) = overrides.bind (f.given? jsonPatch) ∧
      (overrides.bind (f.given? jsonPatch) = none →
        document'.bind (f.given? Decode.json) = document.bind (f.given? Decode.json))

theorem Covers.layered_eq {document' overrides' : Option String}
    (h : Covers document overrides document' overrides' env) (f : ConfigField) :
    f.layered document' overrides' env = f.layered document overrides env := by
  unfold ConfigField.layered
  cases henv : env.get f with
  | some a => rfl
  | none =>
    obtain ⟨hoverrides, hdocument⟩ := h f henv
    rw [hoverrides]
    cases hgiven : overrides.bind (f.given? jsonPatch) with
    | some a => rfl
    | none => rw [hdocument hgiven]

end Config

/-- Loading fails with the first text that cannot be read, the document before the overrides. Else it
validates the settings that the sources give one by one, so that what is covered by a higher source
cannot fail. -/
theorem settings_layered (document overrides : Option String) (env : Layer) :
    ((∃ s ∈ document, ¬Settles Decode.json s) →
      ∃ fault, Config.load document overrides env = .error (.document .json fault)) ∧
    ((∀ s ∈ document, Settles Decode.json s) → (∃ s ∈ overrides, ¬Settles jsonPatch s) →
      ∃ fault, Config.load document overrides env = .error (.overrides fault)) ∧
    ((∀ s ∈ document, Settles Decode.json s) → (∀ s ∈ overrides, Settles jsonPatch s) →
      (∃ c : Config, (∀ f : ConfigField, c.get f = f.layered document overrides env) ∧
        Config.load document overrides env = c.validate.mapError .settings) ∧
      ∀ document' overrides', (∀ s ∈ document', Settles Decode.json s) →
        (∀ s ∈ overrides', Settles jsonPatch s) →
        Config.Covers document overrides document' overrides' env →
          Config.load document' overrides' env = Config.load document overrides env) ∧
    (∀ vars, Layer.ofEnvironment vars = .ok env → env.version = none) ∧
    ∀ s, Config.SameOutcome (Config.parse .json s) (Config.load (some s) none {}) := by
  refine ⟨fun h => ?_, fun hdocument h => ?_, fun hdocument hoverrides => ⟨?_, ?_⟩,
    fun vars h => Layer.version_ofEnvironment h, Config.sameOutcome_parse_load⟩
  · obtain ⟨fault, hfault⟩ := Config.exists_error_layerOf h
    exact ⟨fault, Config.load_of_error hfault⟩
  · obtain ⟨base, hbase, -⟩ := Config.exists_ok_layerOf hdocument
    obtain ⟨fault, hfault⟩ := Config.exists_error_layerOf h
    exact ⟨fault, (Config.load_of_ok hbase).trans (Config.finish_of_error _ hfault)⟩
  · exact Config.load_eq_validate env hdocument hoverrides
  · intro document' overrides' hdocument' hoverrides' hcovers
    obtain ⟨c, hfields, hload⟩ := Config.load_eq_validate env hdocument hoverrides
    obtain ⟨c', hfields', hload'⟩ := Config.load_eq_validate env hdocument' hoverrides'
    have hc : c' = c := Config.ext_get fun f => by rw [hfields, hfields', hcovers.layered_eq]
    rw [hload, hload', hc]

/-- A document with a window and a list of sinks that no settings may have. -/
def coveredDocument : String := Json.compactLine
  (.record [("metrics", .record [("windowMs", .int 0)]), ("sinks", .list [])])

def coveringOverrides : String := Json.compactLine
  (.record [("metrics", .record [("windowMs", .null)]), ("sinks", .list [.text "a"])])

theorem read_coveredDocument : Layer.read .json Decode.json coveredDocument =
    .ok { windowMillis := some 0, sinks := some [] } :=
  Layer.read_json_eq_ok_iff.2 ⟨_, Json.read_compactLine (by simp), rfl⟩

theorem read_coveringOverrides : Layer.read .json jsonPatch coveringOverrides =
    .ok { sinks := some ["a"] } :=
  Layer.read_json_eq_ok_iff.2 ⟨_, Json.read_compactLine (by simp), rfl⟩

theorem settings_layered_covered :
    Settles Decode.json coveredDocument ∧ Settles jsonPatch coveringOverrides ∧
      (Config.load (some coveredDocument) (some coveringOverrides)
        { windowMillis := some 5000 }).toOption.map (·.config) =
          some { windowMillis := 5000, sinks := ["a"] } := by
  have hdocument := Layer.exists_read_json_iff.1 ⟨_, read_coveredDocument⟩
  have hoverrides := Layer.exists_read_json_iff.1 ⟨_, read_coveringOverrides⟩
  refine ⟨hdocument, hoverrides, ?_⟩
  obtain ⟨-, -, hload, -⟩ := settings_layered (some coveredDocument) (some coveringOverrides)
    { windowMillis := some 5000 }
  obtain ⟨⟨c, hfields, hvalid⟩, -⟩ := hload (by simpa using hdocument) (by simpa using hoverrides)
  have hc : c = { windowMillis := 5000, sinks := ["a"] } := Config.ext_get fun f => by
    rw [hfields, ConfigField.layered, Option.bind_some, Option.bind_some,
      ← Layer.get_of_read_json read_coveredDocument, ← Layer.get_of_read_json read_coveringOverrides]
    cases f <;> rfl
  rw [hvalid, hc]
  decide +kernel

end CallMetrics
