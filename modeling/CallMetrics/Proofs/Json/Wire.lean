import CallMetrics.Failure.Wire
import CallMetrics.Metric.Kind
import CallMetrics.Proofs.Config.Fields
import CallMetrics.Proofs.Json.Reading
import CallMetrics.Timing.Frame

/-! Readings, failures and their parts as JSON text. What is written is read back as it was
(`read?_write`), so what is read from any other text has a normal form: the text it is written as. The
members of a record may be listed by place or by name, among others that are not known
(`fields_named`). -/

namespace CallMetrics
open Decode

namespace Decode

/-- A record with its members under their names, without those that are not known. -/
def named (names : List String) : Value → Value
  | .record members => .record (members.filter (names.contains ·.1))
  | .list items => if items.length ≤ names.length then .record (names.zip items) else .list items
  | v => v

/-- A name that may be the only one of a record. -/
def bareName : Value → Value
  | .record [(name, .null)] => .text name
  | v => v

theorem choice_bareName {α : Type} (find : String → Option α) (v : Value) :
    choice json find (bareName v) = choice json find v := by
  unfold bareName
  split <;> rfl

variable {names : List String}

theorem filter_known {name : String} (hname : name ∈ names) (members : List (String × Value)) :
    (members.filter (names.contains ·.1)).filter (·.1 == name) = members.filter (·.1 == name) := by
  rw [List.filter_filter]
  refine List.filter_congr fun e _ => ?_
  by_cases he : e.1 = name
  · simp [he, hname]
  · simp [he]

theorem find?_filter_known {name : String} (hname : name ∈ names)
    (members : List (String × Value)) :
    Dict.find? name (members.filter (names.contains ·.1)) = Dict.find? name members := by
  induction members with
  | nil => rfl
  | cons e rest ih =>
    rw [List.filter_cons]
    split
    · rw [Dict.find?, Dict.find?, ih]
    · rename_i hunknown
      have hne : name ≠ e.1 := fun h => hunknown (by simpa [← h] using hname)
      rw [Dict.find?, if_neg hne, ih]

theorem find?_zip {name : String} (hname : name ∈ names) (items : List Value) :
    Dict.find? name (names.zip items) = items[names.idxOf name]? := by
  induction names generalizing items with
  | nil => cases hname
  | cons first names ih =>
    cases items with
    | nil => rfl
    | cons item items =>
      rw [List.zip_cons_cons, Dict.find?]
      by_cases hfirst : name = first
      · rw [if_pos hfirst, hfirst, List.idxOf_cons_self]
        rfl
      · have hrest : name ∈ names := (List.mem_cons.1 hname).resolve_left hfirst
        rw [if_neg hfirst, ih hrest, List.idxOf_cons,
          beq_false_of_ne (Ne.symm hfirst)]
        rfl

theorem map_fst_zip_sublist (names : List String) (items : List Value) :
    ((names.zip items).map (·.1)).Sublist names := by
  induction names generalizing items with
  | nil => exact .slnil
  | cons name names ih =>
    cases items with
    | nil => exact List.nil_sublist _
    | cons item items => exact (ih items).cons_cons name

theorem required_some {α : Type} (read : Value → Option α) (v : Value) :
    required read (some v) = read v := Option.bind_some v read

/-- Neither the places of members nor unknown members make a difference. -/
theorem fields_named (hnames : names.Nodup) (v : Value) :
    fields json false names (named names v) = fields json false names v := by
  cases v with
  | record members =>
    have hdistinct : distinct names (members.filter (names.contains ·.1)) =
        distinct names members := by
      rw [Bool.eq_iff_iff, distinct, distinct, List.all_eq_true, List.all_eq_true]
      exact forall₂_congr fun name hname => by rw [filter_known hname]
    have hfound : names.map (Dict.find? · (members.filter (names.contains ·.1))) =
        names.map (Dict.find? · members) :=
      List.map_congr_left fun name hname => find?_filter_known hname members
    simp only [named, fields, hdistinct, hfound, Bool.not_false, Bool.true_or, Bool.and_true]
  | list items =>
    rw [named]
    split
    · rename_i hlength
      have hfound : names.map (Dict.find? · (names.zip items)) =
          names.map (Value.part? names · (.list items)) :=
        List.map_congr_left fun name hname => find?_zip hname items
      rw [← map_part?_list hnames items] at hfound
      have hdistinct : distinct names (names.zip items) = true :=
        distinct_of_nodup (hnames.sublist (map_fst_zip_sublist names items))
      simp [fields, hdistinct, hfound, hlength]
    · rfl
  | null | bool _ | int _ | real _ | text _ | foreign => rfl

end Decode

theorem MetricFamily.ofValue?_name (family : MetricFamily) :
    ofValue? (.text family.name) = some family := by
  cases family <;> rfl

/-- A record is read as the list of its members in their order. -/
theorem MetricReading.ofValue?_toValue (r : MetricReading) : ofValue? r.toValue = some r := by
  have hfields : fields json false ["name", "family", "value", "low", "high", "count"] r.toValue =
      some [some (.text r.name.text), some (.text r.family.name), some (.int r.value.toInt),
        some (.int r.low.toInt), some (.int r.high.toInt), some (.ofNat r.count.toNat)] :=
    fields_named (by decide +kernel) (.list [.text r.name.text, .text r.family.name,
      .int r.value.toInt, .int r.low.toInt, .int r.high.toInt, .ofNat r.count.toNat])
  simp only [ofValue?, hfields, required_some, MetricFamily.ofValue?_name, int64_toInt, uint64_ofNat]
  rfl

theorem TimerReading.ofValue?_toValue (r : TimerReading) : ofValue? r.toValue = some r := by
  have hfields : fields json false
      ["startWallMillis", "endWallMillis", "startCpuNanos", "endCpuNanos"] r.toValue =
      some [some (.int r.startWall.toInt), some (.int r.endWall.toInt),
        some (.int r.startCpu.toInt), some (.int r.endCpu.toInt)] :=
    fields_named (by decide +kernel) (.list [.int r.startWall.toInt, .int r.endWall.toInt,
      .int r.startCpu.toInt, .int r.endCpu.toInt])
  simp only [ofValue?, hfields, required_some, int64_toInt]
  rfl

theorem FailureKind.ofWireName?_wireName (kind : FailureKind) :
    ofWireName? kind.wireName = some kind := by
  cases kind <;> rfl

/-- Metadata that is left out is read as none. -/
theorem Failure.ofValue?_toValue (f : Failure) : ofValue? f.toValue = some f := by
  obtain ⟨kind, code, message, metadata⟩ := f
  have hkind : choice json FailureKind.ofWireName? (.text kind.wireName) = some kind :=
    kind.ofWireName?_wireName
  have hcode : FailureCode.ofValue? code.toValue = some code := rfl
  have hnames : ["kind", "code", "message", "metadata"].Nodup := by decide +kernel
  by_cases hempty : metadata.isEmpty
  · obtain rfl : metadata = ∅ := Dict.ext_entries (List.isEmpty_iff.1 hempty)
    have hfields : fields json false ["kind", "code", "message", "metadata"]
        (toValue ⟨kind, code, message, ∅⟩) =
        some [some (.text kind.wireName), some code.toValue, some (.text message), none] :=
      fields_named hnames (.list [.text kind.wireName, code.toValue, .text message])
    simp only [ofValue?, hfields, required_some, hkind, hcode]
    rfl
  · have hwritten : toValue ⟨kind, code, message, metadata⟩ =
        named ["kind", "code", "message", "metadata"]
          (.list [.text kind.wireName, code.toValue, .text message, .ofTexts metadata]) := by
      rw [toValue, if_neg hempty]
      rfl
    have hfields : fields json false ["kind", "code", "message", "metadata"]
        (toValue ⟨kind, code, message, metadata⟩) =
        some [some (.text kind.wireName), some code.toValue, some (.text message),
          some (.ofTexts metadata)] := by
      rw [hwritten, fields_named hnames]
      rfl
    have hmetadata : optional json textDict (some (.ofTexts metadata)) = some (some metadata) :=
      congrArg (Option.map some) (textDict_ofTexts metadata)
    simp only [ofValue?, hfields, required_some, hkind, hcode, hmetadata]
    rfl

/-- What is exchanged as JSON text. -/
inductive WireType
  | metricKey
  | metricKind
  | metricFamily
  | metricReading
  | timerReading
  | failureCode
  | failure
  deriving DecidableEq, Repr

namespace WireType

def Content : WireType → Type
  | metricKey => MetricKey
  | metricKind => MetricKind
  | metricFamily => MetricFamily
  | metricReading => MetricReading
  | timerReading => TimerReading
  | failureCode => FailureCode
  | failure => Failure

def toValue : (t : WireType) → t.Content → Value
  | metricKey => fun key => .text key.text
  | metricKind => fun kind => .text kind.name
  | metricFamily => fun family => .text family.name
  | metricReading => MetricReading.toValue
  | timerReading => TimerReading.toValue
  | failureCode => FailureCode.toValue
  | failure => Failure.toValue

def ofValue? : (t : WireType) → Value → Option t.Content
  | metricKey => fun v => (text v).map MetricKey.mk
  | metricKind => MetricKind.ofValue?
  | metricFamily => MetricFamily.ofValue?
  | metricReading => MetricReading.ofValue?
  | timerReading => TimerReading.ofValue?
  | failureCode => FailureCode.ofValue?
  | failure => Failure.ofValue?

/-- The members of a record, in their order. -/
def members : WireType → List String
  | metricKey | metricKind | metricFamily => []
  | metricReading => ["name", "family", "value", "low", "high", "count"]
  | timerReading => ["startWallMillis", "endWallMillis", "startCpuNanos", "endCpuNanos"]
  | failureCode => ["namespace", "code"]
  | failure => ["kind", "code", "message", "metadata"]

/-- A value in the form it is written in: a name by itself, a record by the names of its members. -/
def plain (t : WireType) (v : Value) : Value :=
  match t with
  | metricKey => v
  | metricKind | metricFamily => bareName v
  | metricReading | timerReading | failureCode | failure => named t.members v

def write (t : WireType) (a : t.Content) : String := Json.compact (t.toValue a)

def read? (t : WireType) (s : String) : Option t.Content := (Json.read s).bind t.ofValue?

/-- What a text is written as that can be read. -/
def normal? (t : WireType) (s : String) : Option String := (t.read? s).map t.write

theorem nodup_members (t : WireType) : t.members.Nodup := by
  cases t <;> decide +kernel

theorem ofValue?_plain (t : WireType) (v : Value) : t.ofValue? (t.plain v) = t.ofValue? v := by
  have hfields := fields_named t.nodup_members v
  cases t with
  | metricKey => rfl
  | metricKind => exact choice_bareName _ v
  | metricFamily => exact choice_bareName _ v
  | metricReading =>
    rw [members] at hfields
    show MetricReading.ofValue? (named metricReading.members v) = MetricReading.ofValue? v
    rw [MetricReading.ofValue?, members, hfields, MetricReading.ofValue?]
  | timerReading =>
    rw [members] at hfields
    show TimerReading.ofValue? (named timerReading.members v) = TimerReading.ofValue? v
    rw [TimerReading.ofValue?, members, hfields, TimerReading.ofValue?]
  | failureCode =>
    rw [members] at hfields
    show FailureCode.ofValue? (named failureCode.members v) = FailureCode.ofValue? v
    rw [FailureCode.ofValue?, members, hfields, FailureCode.ofValue?]
  | failure =>
    rw [members] at hfields
    show Failure.ofValue? (named failure.members v) = Failure.ofValue? v
    rw [Failure.ofValue?, members, hfields, Failure.ofValue?]

theorem ofValue?_toValue (t : WireType) (a : t.Content) : t.ofValue? (t.toValue a) = some a := by
  cases t with
  | metricKey => rfl
  | metricKind => cases a <;> rfl
  | metricFamily => exact MetricFamily.ofValue?_name a
  | metricReading => exact MetricReading.ofValue?_toValue a
  | timerReading => exact TimerReading.ofValue?_toValue a
  | failureCode => rfl
  | failure => exact Failure.ofValue?_toValue a

theorem expressible_toValue (t : WireType) (a : t.Content) : (t.toValue a).Expressible := by
  cases t with
  | metricKey | metricKind | metricFamily => exact .text _
  | metricReading =>
    have hcount := Value.Expressible.ofNat (MetricReading.count a).toNat_lt
    simp [toValue, MetricReading.toValue, Value.Expressible.ofInt64, hcount, -Value.Expressible.int_iff]
  | timerReading =>
    simp [toValue, TimerReading.toValue, Value.Expressible.ofInt64, -Value.Expressible.int_iff]
  | failureCode => simp [toValue, FailureCode.toValue]
  | failure =>
    have hmetadata := Value.Expressible.ofTexts (Failure.metadata a)
    simp only [toValue, Failure.toValue, Value.Expressible.record_iff]
    split <;> simp [FailureCode.toValue, hmetadata]

/-- What is written is read back. -/
theorem read?_write (t : WireType) (a : t.Content) : t.read? (t.write a) = some a := by
  rw [read?, write, Json.read_compact (t.expressible_toValue a), Option.bind_some,
    t.ofValue?_toValue a]

end WireType

/-- What is written is read back, and a text that can be read has a normal form, which says the same and
is its own normal form. Members may be given by place or by name and with others among them. -/
theorem wire_text_faithful (t : WireType) :
    (∀ a, t.read? (t.write a) = some a) ∧
      ∀ s, (t.normal? s).bind t.read? = t.read? s ∧ (t.normal? s).bind t.normal? = t.normal? s ∧
        t.read? s = (Json.read s).bind fun v => t.ofValue? (t.plain v) := by
  refine ⟨t.read?_write, fun s => ⟨?_, ?_, ?_⟩⟩
  · cases hread : t.read? s with
    | none => rw [WireType.normal?, hread]; rfl
    | some a => rw [WireType.normal?, hread]; exact t.read?_write a
  · cases hread : t.read? s with
    | none => rw [WireType.normal?, hread]; rfl
    | some a =>
      have hnormal : t.normal? (t.write a) = some (t.write a) := by
        rw [WireType.normal?, t.read?_write a, Option.map_some]
      rw [WireType.normal?, hread]
      exact hnormal
  · have hplain : (fun v => t.ofValue? (t.plain v)) = t.ofValue? := by
      funext v
      exact t.ofValue?_plain v
    rw [hplain, WireType.read?]

end CallMetrics
