import CallMetrics.Config.Document

/-! Settings one by one. A setting has a place in documents: its label within its group, or the place
of both where lists stand for records. A document is a layer just if its parts have the shape of
records and what stands in the place of each setting can be read as that setting
(`ofValue?_eq_some_iff`). -/

namespace CallMetrics
open Decode

namespace ConfigField

def all : List ConfigField := [version, windowMillis, component, userPrefix, anonymousUser,
  concatCap, historySize, historyKey, sinks, logLevel, logJson]

/-- What a setting is when it is given. -/
abbrev Content : ConfigField → Type
  | version | concatCap | historySize => UInt32
  | windowMillis => UInt64
  | component | userPrefix | anonymousUser => String
  | historyKey => HistoryKey
  | sinks => List String
  | logLevel => LogLevel
  | logJson => Bool

def read (d : Dialect) : (f : ConfigField) → Value → Option f.Content
  | version | concatCap | historySize => uint32
  | windowMillis => uint64
  | component | userPrefix | anonymousUser => text
  | historyKey => choice d HistoryKey.ofName?
  | sinks => texts
  | logLevel => choice d LogLevel.ofName?
  | logJson => bool

/-- The parts of a document. The settings of the root group stand between the other groups. -/
def parts : List String := ["version", "metrics", "dispatcher", "caches", "sinks", "logging"]

def groups : List String := ["metrics", "dispatcher", "caches", "logging"]

def labels (group : String) : List String := (all.filter (·.group == group)).map label

theorem forall_mem_groups {P : String → Prop} :
    (∀ g ∈ groups, P g) ↔ P "metrics" ∧ P "dispatcher" ∧ P "caches" ∧ P "logging" := by
  simp [groups]

theorem nodup_labels : ∀ g ∈ groups, (labels g).Nodup := by decide

theorem ne_root_of_mem_groups : ∀ g ∈ groups, g ≠ "root" := by decide

end ConfigField

/-- What stands under a name in a record, or in its place in a list of the members of one. -/
def Value.part? (names : List String) (name : String) : Value → Option Value
  | .record members => Dict.find? name members
  | .list items => items[names.idxOf name]?
  | _ => none

/-- What stands in the place of a setting. -/
def ConfigField.stated? (f : ConfigField) (v : Value) : Option Value :=
  if f.group = "root" then v.part? parts f.label
  else (v.part? parts f.group).bind (·.part? (labels f.group) f.label)

namespace Config

def get (c : Config) : (f : ConfigField) → f.Content
  | .version => c.version
  | .windowMillis => c.windowMillis
  | .component => c.component
  | .userPrefix => c.userPrefix
  | .anonymousUser => c.anonymousUser
  | .concatCap => c.concatCap
  | .historySize => c.historySize
  | .historyKey => c.historyKey
  | .sinks => c.sinks
  | .logLevel => c.logLevel
  | .logJson => c.logJson

theorem ext_get {c c' : Config} (h : ∀ f, c.get f = c'.get f) : c = c' := by
  cases c
  cases c'
  simp only [mk.injEq]
  exact ⟨h .version, h .windowMillis, h .component, h .userPrefix, h .anonymousUser, h .concatCap,
    h .historySize, h .historyKey, h .sinks, h .logLevel, h .logJson⟩

end Config

namespace Layer

def get (l : Layer) : (f : ConfigField) → Option f.Content
  | .version => l.version
  | .windowMillis => l.windowMillis
  | .component => l.component
  | .userPrefix => l.userPrefix
  | .anonymousUser => l.anonymousUser
  | .concatCap => l.concatCap
  | .historySize => l.historySize
  | .historyKey => l.historyKey
  | .sinks => l.sinks
  | .logLevel => l.logLevel
  | .logJson => l.logJson

end Layer

theorem Config.get_apply (c : Config) (l : Layer) (f : ConfigField) :
    (c.apply l).get f = (l.get f).getD (c.get f) := by cases f <;> rfl

namespace Decode
variable {d : Dialect} {names : List String} {v : Value} {strict : Bool}

theorem distinct_of_nodup {members : List (String × Value)} (h : (members.map (·.1)).Nodup) :
    distinct names members = true := by
  rw [distinct, List.all_eq_true]
  intro name _
  have hone : (members.map (·.1)).count name ≤ 1 := List.nodup_iff_count.1 h name
  rw [List.count, List.countP_map, List.countP_eq_length_filter] at hone
  exact decide_eq_true hone

theorem map_part?_list (hnames : names.Nodup) (items : List Value) :
    (items.map some ++ List.replicate names.length none).take names.length =
      names.map (Value.part? names · (.list items)) := by
  refine List.ext_getElem (by simp) fun i hi hi' => ?_
  have hlt : i < names.length := by simpa using hi'
  have hidx : names.idxOf names[i] = i := hnames.idxOf_getElem i hlt
  simp only [List.getElem_take, List.getElem_map, Value.part?, hidx]
  by_cases hitem : i < items.length
  · rw [List.getElem_append_left (by simpa using hitem), List.getElem_map,
      List.getElem?_eq_getElem hitem]
  · rw [List.getElem_append_right (by simpa using hitem), List.getElem_replicate,
      List.getElem?_eq_none (by omega)]

/-- Members are found by their names, or by their places in a list. -/
theorem fields_eq_map (hnames : names.Nodup) {found : List (Option Value)}
    (h : fields d strict names v = some found) : found = names.map (v.part? names ·) := by
  cases v with
  | record members =>
    simp only [fields] at h
    split at h
    · exact (Option.some.inj h).symm
    · cases h
  | list items =>
    simp only [fields] at h
    split at h
    · rw [← map_part?_list hnames]
      exact (Option.some.inj h).symm
    · cases h
  | null | bool | int | real | text | foreign => cases h

theorem optionalFields_eq_map (hnames : names.Nodup) {part : Option Value}
    {found : List (Option Value)} (h : optionalFields d names part = some found) :
    found = names.map fun name => part.bind (·.part? names name) := by
  cases part with
  | none => exact (Option.some.inj h).symm
  | some v => exact fields_eq_map hnames h

theorem isSome_fields_iff (hnames : names.Nodup) :
    (fields d strict names v).isSome ↔
      fields d strict names v = some (names.map (v.part? names ·)) := by
  rw [Option.isSome_iff_exists]
  exact ⟨fun ⟨_, h⟩ => by rw [h, fields_eq_map hnames h], fun h => ⟨_, h⟩⟩

theorem isSome_optionalFields_iff (hnames : names.Nodup) {part : Option Value} :
    (optionalFields d names part).isSome ↔
      optionalFields d names part =
        some (names.map fun name => part.bind (·.part? names name)) := by
  rw [Option.isSome_iff_exists]
  exact ⟨fun ⟨_, h⟩ => by rw [h, optionalFields_eq_map hnames h], fun h => ⟨_, h⟩⟩

end Decode

/-- The parts of a document have the shape of records with the right names. -/
structure Value.Shaped (d : Dialect) (v : Value) : Prop where
  document : (fields d true ConfigField.parts v).isSome
  group : ∀ g ∈ ConfigField.groups,
    (optionalFields d (ConfigField.labels g) (v.part? ConfigField.parts g)).isSome

namespace Value.Shaped
open ConfigField
variable {d : Dialect} {v : Value}

theorem fields_eq (hv : v.Shaped d) :
    fields d true parts v = some (parts.map (v.part? parts ·)) :=
  (isSome_fields_iff (by decide)).1 hv.document

theorem optionalFields_eq (hv : v.Shaped d) {g : String} (hg : g ∈ groups) :
    optionalFields d (labels g) (v.part? parts g) =
      some ((all.filter (·.group == g)).map (·.stated? v)) := by
  rw [(isSome_optionalFields_iff (nodup_labels g hg)).1 (hv.group g hg), labels, List.map_map]
  refine congrArg some (List.map_congr_left fun f hf => ?_)
  have hgroup : f.group = g := by simpa using (List.mem_filter.1 hf).2
  rw [Function.comp_apply, stated?, if_neg (hgroup ▸ ne_root_of_mem_groups g hg), hgroup, labels]

end Value.Shaped

namespace Layer
variable {d : Dialect} {v : Value} {l : Layer}

theorem shaped_of_ofValue? (h : ofValue? d v = some l) : v.Shaped d := by
  unfold ofValue? at h
  split at h
  · rename_i version metrics dispatcher caches sinks logging hdoc
    simp only [Option.bind_eq_bind, Option.bind_eq_some_iff] at h
    obtain ⟨_, _, _, _, window, hwindow, keys, hkeys, limits, hlimits, logs, hlogs, _⟩ := h
    have hparts := fields_eq_map (by decide) hdoc
    simp only [List.map_cons, List.map_nil, List.cons.injEq, and_true] at hparts
    obtain ⟨_, rfl, rfl, rfl, _, rfl⟩ := hparts
    exact ⟨Option.isSome_of_eq_some hdoc, ConfigField.forall_mem_groups.2
      ⟨Option.isSome_of_eq_some hwindow, Option.isSome_of_eq_some hkeys,
        Option.isSome_of_eq_some hlimits, Option.isSome_of_eq_some hlogs⟩⟩
  · cases h

theorem ofValue?_of_shaped (hv : v.Shaped d) : ofValue? d v = some l ↔
    ∀ f : ConfigField, optional d (f.read d) (f.stated? v) = some (l.get f) := by
  -- the lists that the reader matches on, each place named by the setting that stands there
  have hparts : fields d true ["version", "metrics", "dispatcher", "caches", "sinks", "logging"] v =
      some [ConfigField.version.stated? v, v.part? ConfigField.parts "metrics",
        v.part? ConfigField.parts "dispatcher", v.part? ConfigField.parts "caches",
        ConfigField.sinks.stated? v, v.part? ConfigField.parts "logging"] := hv.fields_eq
  have hmetrics : optionalFields d ["windowMs"] (v.part? ConfigField.parts "metrics") =
      some [ConfigField.windowMillis.stated? v] := hv.optionalFields_eq (by decide)
  have hdispatcher : optionalFields d ["componentKey", "userPrefix", "anonymousUser"]
      (v.part? ConfigField.parts "dispatcher") =
      some [ConfigField.component.stated? v, ConfigField.userPrefix.stated? v,
        ConfigField.anonymousUser.stated? v] := hv.optionalFields_eq (by decide)
  have hcaches : optionalFields d ["concatInnerCap", "historySize", "historyKey"]
      (v.part? ConfigField.parts "caches") =
      some [ConfigField.concatCap.stated? v, ConfigField.historySize.stated? v,
        ConfigField.historyKey.stated? v] := hv.optionalFields_eq (by decide)
  have hlogging : optionalFields d ["level", "json"] (v.part? ConfigField.parts "logging") =
      some [ConfigField.logLevel.stated? v, ConfigField.logJson.stated? v] :=
    hv.optionalFields_eq (by decide)
  simp only [ofValue?, hparts, hmetrics, hdispatcher, hcaches, hlogging, Option.bind_eq_bind,
    Option.bind_some, Option.bind_eq_some_iff, Option.pure_def, Option.some.injEq]
  constructor
  · rintro ⟨_, hversion, _, hsinks, _, hwindow, _, hcomponent, _, hprefix, _, hanonymous, _, hcap, _,
      hsize, _, hkey, _, hlevel, _, hjson, rfl⟩ f
    cases f <;> assumption
  · intro h
    exact ⟨_, h .version, _, h .sinks, _, h .windowMillis, _, h .component, _, h .userPrefix, _,
      h .anonymousUser, _, h .concatCap, _, h .historySize, _, h .historyKey, _, h .logLevel, _,
      h .logJson, rfl⟩

theorem ofValue?_eq_some_iff : ofValue? d v = some l ↔
    v.Shaped d ∧ ∀ f : ConfigField, optional d (f.read d) (f.stated? v) = some (l.get f) := by
  constructor
  · intro h
    have hv := shaped_of_ofValue? h
    exact ⟨hv, (ofValue?_of_shaped hv).1 h⟩
  · rintro ⟨hv, h⟩
    exact (ofValue?_of_shaped hv).2 h

def ofFields (g : (f : ConfigField) → Option f.Content) : Layer where
  version := g .version
  windowMillis := g .windowMillis
  component := g .component
  userPrefix := g .userPrefix
  anonymousUser := g .anonymousUser
  concatCap := g .concatCap
  historySize := g .historySize
  historyKey := g .historyKey
  sinks := g .sinks
  logLevel := g .logLevel
  logJson := g .logJson

@[simp] theorem get_ofFields (g : (f : ConfigField) → Option f.Content) (f : ConfigField) :
    (ofFields g).get f = g f := by cases f <;> rfl

/-- A document is a layer just if it is shaped and each setting that it states can be read. -/
theorem isSome_ofValue?_iff : (ofValue? d v).isSome ↔
    v.Shaped d ∧ ∀ f : ConfigField, (optional d (f.read d) (f.stated? v)).isSome := by
  constructor
  · intro h
    obtain ⟨l, hl⟩ := Option.isSome_iff_exists.1 h
    obtain ⟨hv, hfields⟩ := ofValue?_eq_some_iff.1 hl
    exact ⟨hv, fun f => Option.isSome_of_eq_some (hfields f)⟩
  · rintro ⟨hv, hfields⟩
    have hlayer : ofValue? d v = some (ofFields fun f => Option.get _ (hfields f)) :=
      ofValue?_eq_some_iff.2 ⟨hv, fun f => by rw [get_ofFields, Option.some_get]⟩
    exact Option.isSome_of_eq_some hlayer

end Layer
end CallMetrics
