import Mathlib.Data.List.Nodup
import CallMetrics.Engine.Client
import CallMetrics.Proofs.Config.Rules
import CallMetrics.Proofs.Config.Sources

/-! The clients of valid settings. No two sinks of valid settings have the same name and there is at
least one, so each sink has a client of its own and none is made up (`each_sink_has_client`). -/

namespace CallMetrics
open Text Decode

namespace ValidConfig

theorem map_trim_sinks (v : ValidConfig) : v.config.sinks.map trim = v.config.sinks :=
  congrArg Config.sinks v.normal

theorem keeps_sinks (v : ValidConfig) : v.config.Keeps .sinks :=
  Config.fault?_eq_none_iff_keeps.1 v.accepted .sinks

theorem nodup_sinks (v : ValidConfig) : v.config.sinks.Nodup :=
  v.map_trim_sinks ▸ v.keeps_sinks.2.2

theorem sinks_ne_nil (v : ValidConfig) : v.config.sinks ≠ [] :=
  List.ne_nil_of_length_pos v.keeps_sinks.1.1

end ValidConfig

namespace Config
variable {overrides : Option String} {env : Layer} {v : ValidConfig}

/-- The sinks of loaded settings are those of the highest source that gives any, trimmed. -/
theorem Base.sinks_of_load {base : Base} (h : base.load overrides env = .ok v) :
    ∃ (c : Config) (patch : Layer), (∀ overrides env, base.load overrides env = c.finish overrides env) ∧
      layerOf jsonPatch overrides = .ok patch ∧
      v.config.sinks = ((env.sinks.or patch.sinks).getD c.sinks).map trim := by
  rcases base.load_cases with ⟨e, hfailed⟩ | ⟨c, hfinish⟩
  · rw [hfailed] at h
    cases h
  · rw [hfinish] at h
    obtain ⟨patch, hpatch, hvalid⟩ := (finish_eq_ok_iff c).1 h
    have hsinks : v.config.sinks = (env.sinks.getD (patch.sinks.getD c.sinks)).map trim :=
      congrArg Config.sinks (validate_eq_ok_iff.1 hvalid).2
    refine ⟨c, patch, hfinish, hpatch, ?_⟩
    rw [hsinks]
    cases env.sinks <;> rfl

end Config

namespace Clients
variable {σ : Type} {v : ValidConfig} {root : Logger} {sinkFor : String → Sink σ} {name : String}
  {client : Client σ}

/-- The client of a sink by its place in the list of them. -/
def built (v : ValidConfig) (root : Logger) (sinkFor : String → Sink σ) (name : String) (id : Nat) :
    Client σ :=
  .new name ⟨id⟩ (.ofMillis v.config.windowMillis) (sinkFor name) root

/-- The clients of all sinks under their names, in the order in which they are entered. -/
def entered (v : ValidConfig) (root : Logger) (sinkFor : String → Sink σ) :
    List (String × Client σ) :=
  (v.config.sinks.mapIdx fun id name => built v root sinkFor name id).map fun c => (c.name, c)

theorem map_entered : (entered v root sinkFor).map (·.1) = v.config.sinks := by
  refine List.ext_getElem? fun i => ?_
  rw [entered, List.getElem?_map, List.getElem?_map, List.getElem?_mapIdx]
  cases v.config.sinks[i]? <;> rfl

theorem mem_entered_iff : (name, client) ∈ entered v root sinkFor ↔
    ∃ id, v.config.sinks[id]? = some name ∧ client = built v root sinkFor name id := by
  simp only [entered, List.mem_iff_getElem?, List.getElem?_map, List.getElem?_mapIdx,
    Option.map_eq_some_iff, Prod.mk.injEq]
  constructor
  · rintro ⟨id, _, ⟨sink, hsink, rfl⟩, rfl, rfl⟩
    exact ⟨id, hsink, rfl⟩
  · rintro ⟨id, hsink, rfl⟩
    exact ⟨id, _, ⟨name, hsink, rfl⟩, rfl, rfl⟩

theorem ofConfig_eq {rest : List String} (h : v.config.sinks = name :: rest) :
    ofConfig v root sinkFor =
      ⟨Dict.ofList (entered v root sinkFor), built v root sinkFor name 0⟩ := by
  simp only [ofConfig, entered, h, List.mapIdx_cons]
  rfl

/-- One client for each of these sinks, that of the first of them in front. -/
structure Serve (cs : Clients σ) (sinks : List String) (build : String → Nat → Client σ) : Prop where
  sorted : cs.names.Pairwise (· < ·)
  perm : cs.names.Perm sinks
  size : cs.size = sinks.length
  lookup : ∀ name client, cs.get? name = some client ↔
    client.name = name ∧ ∃ id, sinks[id]? = some name ∧ client = build name id
  first : ∃ name, sinks.head? = some name ∧ cs.first = build name 0 ∧ cs.get? name = some cs.first

theorem serve_ofConfig (v : ValidConfig) (root : Logger) (sinkFor : String → Sink σ) :
    (ofConfig v root sinkFor).Serve v.config.sinks (built v root sinkFor) := by
  obtain ⟨name, rest, hsinks⟩ := List.exists_cons_of_ne_nil v.sinks_ne_nil
  have hdistinct : ((entered v root sinkFor).map (·.1)).Nodup := map_entered ▸ v.nodup_sinks
  have hget {name client} : (ofConfig v root sinkFor).get? name = some client ↔
      ∃ id, v.config.sinks[id]? = some name ∧ client = built v root sinkFor name id := by
    rw [get?, ofConfig_eq hsinks, Dict.get?_ofList_eq_some_iff hdistinct, mem_entered_iff]
  have hnames : (ofConfig v root sinkFor).names.Perm v.config.sinks := by
    refine (List.perm_ext_iff_of_nodup (Dict.nodup_keys _) v.nodup_sinks).2 fun name => ?_
    rw [Dict.mem_keys_iff, List.mem_iff_getElem?]
    constructor
    · rintro ⟨client, hclient⟩
      obtain ⟨id, hid, -⟩ := hget.1 hclient
      exact ⟨id, hid⟩
    · rintro ⟨id, hid⟩
      exact ⟨_, hget.2 ⟨id, hid, rfl⟩⟩
  refine ⟨Dict.pairwise_keys _, hnames, (Dict.length_keys _).symm.trans hnames.length_eq,
    fun name client => ?_, name, ?_, ?_, ?_⟩
  · rw [hget]
    refine ⟨?_, And.right⟩
    rintro ⟨id, hid, rfl⟩
    exact ⟨rfl, id, hid, rfl⟩
  · rw [hsinks, List.head?_cons]
  · rw [ofConfig_eq hsinks]
  · exact hget.2 ⟨0, by rw [hsinks, List.getElem?_cons_zero], by rw [ofConfig_eq hsinks]⟩

/-- Sinks are looked up for the configured names alone. -/
theorem ofConfig_congr {sinkFor' : String → Sink σ}
    (h : ∀ name ∈ v.config.sinks, sinkFor' name = sinkFor name) :
    ofConfig v root sinkFor' = ofConfig v root sinkFor := by
  obtain ⟨first, rest, hsinks⟩ := List.exists_cons_of_ne_nil v.sinks_ne_nil
  have hbuilt {name : String} (hname : name ∈ v.config.sinks) (id : Nat) :
      built v root sinkFor' name id = built v root sinkFor name id := by
    rw [built, h name hname, built]
  have hentered : entered v root sinkFor' = entered v root sinkFor := by
    rw [entered, entered]
    congr 1
    refine List.ext_getElem? fun id => ?_
    rw [List.getElem?_mapIdx, List.getElem?_mapIdx]
    cases hname : v.config.sinks[id]? with
    | none => rfl
    | some name => exact congrArg some (hbuilt (List.mem_of_getElem? hname) id)
  rw [ofConfig_eq hsinks, ofConfig_eq hsinks, hentered, hbuilt (hsinks ▸ List.mem_cons_self)]

end Clients

/-- Valid settings have one client for each sink, named like it, and the client of the first sink is
the one that stands in front. The sinks are those of the highest source that gives any. No client is
made up: unless its name is configured there is none of the fallback name, and no sink is looked up
for it. -/
theorem each_sink_has_client {σ : Type} (v : ValidConfig) (root : Logger)
    (sinkFor : String → Sink σ) :
    (Clients.ofConfig v root sinkFor).Serve v.config.sinks (Clients.built v root sinkFor) ∧
      (∀ (base : Config.Base) overrides env, base.load overrides env = .ok v →
        ∃ (c : Config) (patch : Layer),
          (∀ overrides env, base.load overrides env = c.finish overrides env) ∧
            Config.layerOf jsonPatch overrides = .ok patch ∧
            (Clients.ofConfig v root sinkFor).names.Perm
              (((env.sinks.or patch.sinks).getD c.sinks).map trim)) ∧
      (Clients.defaultName ∉ v.config.sinks →
        (Clients.ofConfig v root sinkFor).get? Clients.defaultName = none ∧
          (Clients.ofConfig v root sinkFor).first.name ≠ Clients.defaultName) ∧
      ∀ sinkFor' : String → Sink σ, (∀ name ∈ v.config.sinks, sinkFor' name = sinkFor name) →
        Clients.ofConfig v root sinkFor' = Clients.ofConfig v root sinkFor := by
  have hserve := Clients.serve_ofConfig v root sinkFor
  refine ⟨hserve, fun base overrides env hload => ?_, fun habsent => ⟨?_, ?_⟩,
    fun sinkFor' h => Clients.ofConfig_congr h⟩
  · obtain ⟨c, patch, hbase, hpatch, hsinks⟩ := Config.Base.sinks_of_load hload
    exact ⟨c, patch, hbase, hpatch, hsinks ▸ hserve.perm⟩
  · refine Option.eq_none_iff_forall_ne_some.2 fun client hclient => habsent ?_
    obtain ⟨-, id, hid, -⟩ := (hserve.lookup _ _).1 hclient
    exact List.mem_of_getElem? hid
  · obtain ⟨name, hname, hfirst, -⟩ := hserve.first
    have hbuilt : (Clients.ofConfig v root sinkFor).first.name = name := by rw [hfirst]; rfl
    rw [hbuilt]
    rintro rfl
    exact habsent (List.mem_of_head? hname)

def auditedConfig : ValidConfig :=
  ⟨{ sinks := ["primary", "audit"] }, by decide +kernel, by decide +kernel⟩

def auditedClients (sinkFor : String → Sink Unit) : Clients Unit :=
  .ofConfig auditedConfig ⟨.silent, ∅⟩ sinkFor

theorem load_audited : (Config.Base.document none).load none
    { sinks := some [" primary ", "audit"] } = .ok auditedConfig := by
  have hvalid : (({} : Config).apply { sinks := some [" primary ", "audit"] }).validate =
      .ok auditedConfig := Config.validate_eq_ok_iff.2 ⟨by decide +kernel, by decide +kernel⟩
  exact congrArg (Except.mapError LoadError.settings) hvalid

/-- Two sinks from the environment, with blanks around a name, and none of the fallback name. -/
theorem each_sink_has_client_audited :
    (auditedClients fun _ => .discarding).names.Perm ["primary", "audit"] ∧
      (auditedClients fun _ => .discarding).get? "audit" =
        some (.new "audit" ⟨1⟩ (.ofMillis 15000) .discarding ⟨.silent, ∅⟩) ∧
      (auditedClients fun _ => .discarding).get? Clients.defaultName = none ∧
      auditedClients (fun name => if name = Clients.defaultName then .failing else .discarding) =
        auditedClients fun _ => .discarding := by
  obtain ⟨hserve, hload, hfallback, hsinkFor⟩ :=
    each_sink_has_client auditedConfig ⟨.silent, ∅⟩ fun _ => (.discarding : Sink Unit)
  have habsent : Clients.defaultName ∉ auditedConfig.config.sinks := by decide
  refine ⟨?_, (hserve.lookup _ _).2 ⟨rfl, 1, rfl, rfl⟩, (hfallback habsent).1,
    hsinkFor _ fun name hname => if_neg fun hdefault : name = Clients.defaultName =>
      habsent (hdefault ▸ hname)⟩
  obtain ⟨c, patch, -, -, hperm⟩ := hload _ _ _ load_audited
  have htrimmed : [" primary ", "audit"].map trim = ["primary", "audit"] := by decide +kernel
  exact htrimmed ▸ hperm

end CallMetrics
