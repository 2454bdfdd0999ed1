import CallMetrics.Proofs.Config.Precedence
import CallMetrics.Proofs.Json.Reading
import CallMetrics.Proofs.Toml.Document

/-! Settings as they are written. A document that states the settings of a program, each by the value
that it is written as, is the layer of all of them (`ofValue?_of_stated`), and valid settings are
accepted as they are (`validate_config`). Hence the JSON text of valid settings gives them back, both
as a document and as overrides of any other document. -/

namespace CallMetrics
open Decode

namespace Config

/-- What a setting is written as. -/
def value (c : Config) : ConfigField → Value
  | .version => .ofNat c.version.toNat
  | .windowMillis => .ofNat c.windowMillis.toNat
  | .component => .text c.component
  | .userPrefix => .text c.userPrefix
  | .anonymousUser => .text c.anonymousUser
  | .concatCap => .ofNat c.concatCap.toNat
  | .historySize => .ofNat c.historySize.toNat
  | .historyKey => .text c.historyKey.name
  | .sinks => .list (c.sinks.map .text)
  | .logLevel => .text c.logLevel.name
  | .logJson => .bool c.logJson

end Config

namespace Decode

/-- A record with some of the names, each of them once, is as strict as a reader may ask. -/
theorem isSome_fields_record {d : Dialect} {names : List String} {members : List (String × Value)}
    (hdistinct : (members.map (·.1)).Nodup) (hknown : members.map (·.1) ⊆ names) :
    (fields d true names (.record members)).isSome := by
  have hall : members.all (names.contains ·.1) = true := by
    rw [List.all_eq_true]
    intro e he
    rw [List.contains_iff_mem]
    exact hknown (List.mem_map_of_mem he)
  rw [fields, distinct_of_nodup hdistinct, hall]
  rfl

end Decode

theorem ConfigField.read_value (d : Dialect) (c : Config) (f : ConfigField) :
    f.read d (c.value f) = some (c.get f) := by
  cases f with
  | version => exact uint32_ofNat _
  | windowMillis => exact uint64_ofNat _
  | component => rfl
  | userPrefix => rfl
  | anonymousUser => rfl
  | concatCap => exact uint32_ofNat _
  | historySize => exact uint32_ofNat _
  | historyKey =>
    change HistoryKey.ofName? c.historyKey.name = some c.historyKey
    cases c.historyKey <;> rfl
  | sinks => exact texts_map _
  | logLevel =>
    change LogLevel.ofName? c.logLevel.name = some c.logLevel
    cases c.logLevel <;> rfl
  | logJson => rfl

/-- All settings given. -/
def Layer.full (c : Config) : Layer := ofFields fun f => some (c.get f)

namespace Config

theorem optional_value (d : Dialect) (c : Config) (f : ConfigField) :
    Decode.optional d (f.read d) (some (c.value f)) = some (some (c.get f)) := by
  have hgiven : ∀ v : Value, v ≠ .null →
      Decode.optional d (f.read d) (some v) = (f.read d v).map some := by
    intro v hv
    unfold Decode.optional
    split <;> simp_all
  have hvalue : c.value f ≠ .null := by cases f <;> simp [value, Value.ofNat]
  rw [hgiven _ hvalue, f.read_value d c, Option.map_some]

def groupMembers (c : Config) (g : String) : List (String × Value) :=
  (ConfigField.all.filter (·.group == g)).map fun f => (f.label, c.value f)

theorem map_fst_groupMembers (c : Config) (g : String) :
    (c.groupMembers g).map (·.1) = ConfigField.labels g := List.map_map

/-- The parts of a document with all settings, in any order. -/
structure Written (c : Config) (members : List (String × Value)) : Prop where
  distinct : (members.map (·.1)).Nodup
  known : members.map (·.1) ⊆ ConfigField.parts
  version : Dict.find? "version" members = some (c.value .version)
  sinks : Dict.find? "sinks" members = some (c.value .sinks)
  group : ∀ g ∈ ConfigField.groups, Dict.find? g members = some (.record (c.groupMembers g))

namespace Written
variable {c : Config} {members : List (String × Value)} (h : c.Written members)
include h

theorem shaped (d : Dialect) : (Value.record members).Shaped d := by
  refine ⟨isSome_fields_record h.distinct h.known, fun g hg => ?_⟩
  have hnames := c.map_fst_groupMembers g
  rw [Value.part?, h.group g hg, Decode.optionalFields]
  refine isSome_fields_record ?_ ?_
  · rw [hnames]
    exact ConfigField.nodup_labels g hg
  · rw [hnames]
    exact List.Subset.refl _

theorem stated? (f : ConfigField) : f.stated? (.record members) = some (c.value f) := by
  -- a setting of a group stands in the record of its group, which is found first
  have hgroup {g : String} (hg : g ∈ ConfigField.groups) (hf : f.group = g) :
      f.stated? (.record members) = Dict.find? f.label (c.groupMembers g) := by
    have hroot : f.group ≠ "root" := hf ▸ ConfigField.ne_root_of_mem_groups g hg
    rw [ConfigField.stated?, if_neg hroot, hf, Value.part?, h.group g hg]
    rfl
  cases f with
  | version => exact h.version
  | sinks => exact h.sinks
  | windowMillis => exact hgroup (g := "metrics") (by decide) rfl
  | component | userPrefix | anonymousUser => exact hgroup (g := "dispatcher") (by decide) rfl
  | concatCap | historySize | historyKey => exact hgroup (g := "caches") (by decide) rfl
  | logLevel | logJson => exact hgroup (g := "logging") (by decide) rfl

theorem ofValue? (d : Dialect) : Layer.ofValue? d (.record members) = some (.full c) := by
  refine Layer.ofValue?_eq_some_iff.2 ⟨h.shaped d, fun f => ?_⟩
  rw [h.stated? f, c.optional_value d f, Layer.full, Layer.get_ofFields]

end Written

@[simp] theorem apply_full (base c : Config) : base.apply (.full c) = c :=
  ext_get fun f => by rw [get_apply, Layer.full, Layer.get_ofFields, Option.getD_some]

theorem written_of_toValue {c : Config} {members : List (String × Value)}
    (h : c.toValue = .record members) : c.Written members := by
  obtain rfl := Value.record.inj h
  have hdistinct : ConfigField.parts.Nodup := by decide
  refine ⟨hdistinct, List.Subset.refl _, rfl, rfl, ?_⟩
  exact ConfigField.forall_mem_groups.2 ⟨rfl, rfl, rfl, rfl⟩

theorem expressible_toValue (c : Config) : c.toValue.Expressible := by
  have hwide : UInt32.size ≤ UInt64.size := by decide
  have hnat (n : UInt32) : (Value.ofNat n.toNat).Expressible :=
    Value.Expressible.ofNat (Nat.lt_of_lt_of_le n.toNat_lt hwide)
  simp [toValue, Value.Expressible.ofNat c.windowMillis.toNat_lt, hnat]

theorem read_toJson (d : Dialect) (c : Config) : Layer.read .json d c.toJson = .ok (.full c) :=
  Layer.read_json_eq_ok_iff.2
    ⟨c.toValue, Json.read_prettyLines c.expressible_toValue, (written_of_toValue rfl).ofValue? d⟩

/-- What the TOML text of settings says. -/
def tomlMembers (c : Config) : List (String × Value) :=
  [("version", c.value .version), ("sinks", c.value .sinks)] ++
    ConfigField.groups.map fun g => (g, .record (c.groupMembers g))

theorem written_tomlMembers (c : Config) : c.Written c.tomlMembers := by
  have hdistinct : (["version", "sinks"] ++ ConfigField.groups).Nodup := by decide
  have hknown : ["version", "sinks"] ++ ConfigField.groups ⊆ ConfigField.parts := by decide
  refine ⟨hdistinct, hknown, rfl, rfl, ?_⟩
  exact ConfigField.forall_mem_groups.2 ⟨rfl, rfl, rfl, rfl⟩

theorem read_toToml_value (c : Config) : Toml.read c.toToml = some (.record c.tomlMembers) := by
  have hbare : ∀ name ∈ ["version", "sinks", "metrics", "windowMs", "dispatcher", "componentKey",
      "userPrefix", "anonymousUser", "caches", "concatInnerCap", "historySize", "historyKey",
      "logging", "level", "json"], Toml.Bare name := by decide +kernel
  have hlabels := ConfigField.forall_mem_groups.1 ConfigField.nodup_labels
  refine Toml.read_write
    ⟨List.forall_mem_map.1 hbare, c.written_tomlMembers.distinct, fun table htable => ?_⟩
  simp only [List.mem_cons, List.not_mem_nil, or_false] at htable
  rcases htable with rfl | rfl | rfl | rfl
  · exact hlabels.1
  · exact hlabels.2.1
  · exact hlabels.2.2.1
  · exact hlabels.2.2.2

theorem read_toToml (d : Dialect) (c : Config) : Layer.read .toml d c.toToml = .ok (.full c) :=
  Layer.read_eq_ok_iff.2 ⟨_, c.read_toToml_value, c.written_tomlMembers.ofValue? d⟩

end Config

theorem Config.parse_of_read {format : ConfigFormat} {s : String} {v : ValidConfig}
    (h : Layer.read format format.dialect s = .ok (.full v.config)) : parse format s = .ok v := by
  simp only [parse, readDocument, h, Except.map, apply_full, v.validate_config, Except.mapError]

/-- The JSON text of valid settings gives them back, as a document that stands alone and as overrides
of any document that can be read, whether that one is valid or not. -/
theorem json_text_faithful (v : ValidConfig) :
    Config.parse .json v.config.toJson = .ok v ∧
      ∀ document : Option String, (∀ s ∈ document, Settles Decode.json s) →
        Config.load document (some v.config.toJson) {} = .ok v := by
  have hparse := Config.parse_of_read (v.config.read_toJson ConfigFormat.json.dialect)
  refine ⟨hparse, fun document hdocument => ?_⟩
  obtain ⟨base, hbase, -⟩ := Config.exists_ok_layerOf hdocument
  have hpatch : Config.layerOf jsonPatch (some v.config.toJson) = .ok (.full v.config) := by
    rw [Config.layerOf, v.config.read_toJson]
  have hempty (c : Config) : c.apply {} = c := rfl
  rw [Config.load_of_ok hbase, Config.finish_of_ok _ hpatch, Config.apply_full, hempty,
    v.validate_config]
  rfl

theorem json_text_faithful_covered :
    Settles Decode.json coveredDocument ∧
      Config.load (some coveredDocument) (some ValidConfig.default.config.toJson) {} =
        .ok .default := by
  have hdocument := Layer.exists_read_json_iff.1 ⟨_, read_coveredDocument⟩
  exact ⟨hdocument, (json_text_faithful .default).2 _ (by simpa using hdocument)⟩

/-- Both texts of valid settings give them back. -/
theorem toml_text_agrees (v : ValidConfig) :
    Config.parse .toml v.config.toToml = .ok v ∧
      Config.parse .toml v.config.toToml = Config.parse .json v.config.toJson := by
  have htoml := Config.parse_of_read (v.config.read_toToml ConfigFormat.toml.dialect)
  have hjson := Config.parse_of_read (v.config.read_toJson ConfigFormat.json.dialect)
  exact ⟨htoml, htoml.trans hjson.symm⟩

end CallMetrics
