import CallMetrics.Config.Valid

/-! Which settings are valid. Each setting that is validated has a rule of its own (`Config.Keeps`),
and a broken rule has one report (`Config.Reports`). Settings are accepted just if they keep all the
rules; else the report is that of the first rule that they break (`settings_accepted_iff`). -/

namespace CallMetrics
open Text

section Faults
variable {field : ConfigField} {e : ConfigError}

theorem rangeFault?_eq_some_iff {value least most : Nat} :
    rangeFault? field value least most = some e ↔
      ¬(least ≤ value ∧ value ≤ most) ∧ e = .outOfRange field value least most := by
  have hout : ¬(least ≤ value ∧ value ≤ most) ↔ value < least ∨ most < value := by omega
  rw [rangeFault?, hout]
  split
  next h => simp [h, eq_comm]
  next h => simp [h]

theorem readTrimmed_eq_error_iff {part : KeyPart} {raw : String} {cause : KeyError} :
    readTrimmed part raw = .error cause ↔
      trim raw = "" ∧ cause = .blank part raw.utf8ByteSize := by
  rw [readTrimmed]
  split
  next h => simp [h, eq_comm]
  next h => simp [h]

/-- A text that is not blank is a segment unless there is a slash in it. -/
theorem readSegment_eq_error_iff {part : KeyPart} {raw : String} {cause : KeyError} :
    readSegment part raw = .error cause ↔
      ¬(trim raw ≠ "" ∧ '/' ∉ (trim raw).toList) ∧
        cause = if trim raw = "" then .blank part raw.utf8ByteSize else .separator (trim raw) := by
  rw [readSegment]
  cases hread : readTrimmed part raw with
  | error blank =>
    obtain ⟨hblank, rfl⟩ := readTrimmed_eq_error_iff.1 hread
    simp [hblank, eq_comm]
  | ok s =>
    have htext := readTrimmed_eq_ok hread
    have hne : trim raw ≠ "" := htext ▸ s.2.1
    simp only [htext, if_neg hne]
    split
    next hslash => simp [hslash, eq_comm (a := cause)]
    next hslash => simp [hne, hslash]

theorem keyFault?_eq_some_iff {α : Type} {r : Except KeyError α} :
    keyFault? field r = some e ↔ ∃ cause, r = .error cause ∧ e = .badKey field cause := by
  cases r <;> simp [keyFault?, eq_comm]

theorem componentFault?_eq_some_iff {raw : String} :
    keyFault? field (ComponentKey.read raw) = some e ↔
      ¬(trim raw ≠ "" ∧ '/' ∉ (trim raw).toList) ∧ e = .badKey field
        (if trim raw = "" then .blank .component raw.utf8ByteSize else .separator (trim raw)) := by
  simp only [keyFault?_eq_some_iff, ComponentKey.read, map_eq_error_iff, readSegment_eq_error_iff,
    and_assoc, exists_eq_left, exists_and_left]

theorem userFault?_eq_some_iff {raw : String} :
    keyFault? field (UserId.read raw) = some e ↔
      ¬trim raw ≠ "" ∧ e = .badKey field (.blank .user raw.utf8ByteSize) := by
  simp only [keyFault?_eq_some_iff, UserId.read, map_eq_error_iff, readTrimmed_eq_error_iff,
    and_assoc, exists_eq_left, exists_and_left, ne_eq, Decidable.not_not]

end Faults

/-- No name is blank, and each differs from those seen before and from each other one. -/
structure FreshNames (seen sinks : List String) : Prop where
  nonblank : ∀ sink ∈ sinks, trim sink ≠ ""
  unseen : ∀ sink ∈ sinks, trim sink ∉ seen
  distinct : (sinks.map trim).Nodup

/-- What is wrong with a sink after those whose names have been seen. -/
def SinkOffends (seen : List String) (sink : String) (e : ConfigError) : Prop :=
  trim sink = "" ∧ e = .blankSink ∨
    trim sink ≠ "" ∧ trim sink ∈ seen ∧ e = .duplicateSink (trim sink)

section Sinks
variable {seen sinks rest : List String} {sink : String} {e : ConfigError}

theorem freshNames_nil : FreshNames seen [] := ⟨by simp, by simp, List.nodup_nil⟩

theorem freshNames_cons : FreshNames seen (sink :: rest) ↔
    trim sink ≠ "" ∧ trim sink ∉ seen ∧ FreshNames (trim sink :: seen) rest := by
  constructor
  · intro h
    obtain ⟨hnew, hdistinct⟩ := List.nodup_cons.1 h.distinct
    refine ⟨h.nonblank _ List.mem_cons_self, h.unseen _ List.mem_cons_self,
      fun other ho => h.nonblank _ (List.mem_cons_of_mem _ ho), fun other ho => ?_, hdistinct⟩
    rw [List.mem_cons, not_or]
    exact ⟨fun hsame => hnew (hsame ▸ List.mem_map_of_mem ho),
      h.unseen _ (List.mem_cons_of_mem _ ho)⟩
  · rintro ⟨hblank, hseen, h⟩
    have hrest (other : String) (ho : other ∈ rest) :
        trim other ≠ trim sink ∧ trim other ∉ seen := by
      simpa using h.unseen other ho
    refine ⟨List.forall_mem_cons.2 ⟨hblank, h.nonblank⟩,
      List.forall_mem_cons.2 ⟨hseen, fun other ho => (hrest other ho).2⟩,
      List.nodup_cons.2 ⟨fun hsame => ?_, h.distinct⟩⟩
    obtain ⟨other, ho, hother⟩ := List.mem_map.1 hsame
    exact (hrest other ho).1 hother

theorem sinkFault?_eq_none_iff : sinkFault? seen sinks = none ↔ FreshNames seen sinks := by
  induction sinks generalizing seen with
  | nil => simp [sinkFault?, freshNames_nil]
  | cons sink rest ih =>
    rw [sinkFault?, freshNames_cons, ← ih]
    by_cases hblank : trim sink = ""
    · simp [hblank]
    by_cases hseen : trim sink ∈ seen
    · simp [hblank, hseen]
    simp [hblank, hseen]

theorem sinkFault?_cons_eq_some_iff : sinkFault? seen (sink :: rest) = some e ↔
    SinkOffends seen sink e ∨
      trim sink ≠ "" ∧ trim sink ∉ seen ∧ sinkFault? (trim sink :: seen) rest = some e := by
  rw [sinkFault?, SinkOffends]
  by_cases hblank : trim sink = ""
  · simp [hblank, eq_comm (a := e)]
  by_cases hseen : trim sink ∈ seen
  · simp [hblank, hseen, eq_comm (a := e)]
  simp [hblank, hseen]

theorem sinkOffends_map_cons (before : List String) (first : String) :
    SinkOffends ((first :: before).map trim ++ seen) sink e ↔
      SinkOffends (before.map trim ++ trim first :: seen) sink e := by
  simp [SinkOffends, or_left_comm]

/-- The fault is that of the first sink that offends against those before it. -/
theorem sinkFault?_eq_some_iff : sinkFault? seen sinks = some e ↔
    ∃ before sink after, sinks = before ++ sink :: after ∧ FreshNames seen before ∧
      SinkOffends (before.map trim ++ seen) sink e := by
  induction sinks generalizing seen with
  | nil => simp [sinkFault?]
  | cons first rest ih =>
    rw [sinkFault?_cons_eq_some_iff, ih]
    constructor
    · rintro (hoffends | ⟨hblank, hseen, before, sink, after, rfl, hbefore, hoffends⟩)
      · exact ⟨[], first, rest, rfl, freshNames_nil, hoffends⟩
      · exact ⟨first :: before, sink, after, rfl, freshNames_cons.2 ⟨hblank, hseen, hbefore⟩,
          (sinkOffends_map_cons before first).2 hoffends⟩
    · rintro ⟨before, sink, after, hsinks, hbefore, hoffends⟩
      cases before with
      | nil =>
        obtain ⟨rfl, rfl⟩ := List.cons.inj hsinks
        exact .inl hoffends
      | cons first' before =>
        obtain ⟨rfl, rfl⟩ := List.cons.inj hsinks
        obtain ⟨hblank, hseen, hbefore⟩ := freshNames_cons.1 hbefore
        exact .inr ⟨hblank, hseen, before, sink, after, rfl, hbefore,
          (sinkOffends_map_cons before first).1 hoffends⟩

/-- Only a list of a good length is looked through. -/
def GoodLength (sinks : List String) : Prop := 1 ≤ sinks.length ∧ sinks.length ≤ 64

instance (sinks : List String) : Decidable (GoodLength sinks) :=
  inferInstanceAs (Decidable (_ ∧ _))

theorem sinksFault?_of_goodLength (h : GoodLength sinks) :
    sinksFault? sinks = sinkFault? [] sinks := by
  have hsome : sinks ≠ [] := List.ne_nil_of_length_pos h.1
  have hfew : ¬maxSinks < sinks.length := Nat.not_lt.2 h.2
  rw [sinksFault?, if_neg hsome, if_neg hfew]

theorem sinksFault?_of_not_goodLength (h : ¬GoodLength sinks) :
    sinksFault? sinks = some (if sinks = [] then .noSinks else .tooManySinks sinks.length) := by
  rw [sinksFault?]
  by_cases hnone : sinks = []
  · rw [if_pos hnone, if_pos hnone]
  · have hmany : maxSinks < sinks.length :=
      Nat.not_le.1 fun hle => h ⟨List.length_pos_iff.2 hnone, hle⟩
    rw [if_neg hnone, if_neg hnone, if_pos hmany]

end Sinks

namespace Config
variable {c : Config} {f : ConfigField} {e : ConfigError}

/-- The settings that have a rule, in the order in which their rules are checked. -/
def ruled : List ConfigField := [.version, .windowMillis, .component, .anonymousUser, .userPrefix,
  .concatCap, .historySize, .sinks]

/-- The settings keep the rule of one of them. A choice among given names has none. -/
def Keeps (c : Config) : ConfigField → Prop
  | .version => c.version = 1
  | .windowMillis => 1 ≤ c.windowMillis.toNat ∧ c.windowMillis.toNat ≤ 3600000
  | .component => trim c.component ≠ "" ∧ '/' ∉ (trim c.component).toList
  | .anonymousUser => trim c.anonymousUser ≠ ""
  | .userPrefix => '/' ∉ c.userPrefix.toList
  | .concatCap => 1 ≤ c.concatCap.toNat ∧ c.concatCap.toNat ≤ 1000000
  | .historySize => 1 ≤ c.historySize.toNat ∧ c.historySize.toNat ≤ 10000
  | .sinks => GoodLength c.sinks ∧ (∀ sink ∈ c.sinks, trim sink ≠ "") ∧ (c.sinks.map trim).Nodup
  | .historyKey | .logLevel | .logJson => True

instance (c : Config) : (f : ConfigField) → Decidable (c.Keeps f)
  | .version => inferInstanceAs (Decidable (_ = _))
  | .userPrefix => inferInstanceAs (Decidable (_ ∉ _))
  | .anonymousUser => inferInstanceAs (Decidable (_ ≠ _))
  | .windowMillis | .component | .concatCap | .historySize => inferInstanceAs (Decidable (_ ∧ _))
  | .sinks => inferInstanceAs (Decidable (_ ∧ _ ∧ _))
  | .historyKey | .logLevel | .logJson => inferInstanceAs (Decidable True)

/-- What is reported where a rule is broken. In a list of a good length it is the first sink that is
blank or that repeats one before it. -/
def Reports (c : Config) (e : ConfigError) : ConfigField → Prop
  | .version => e = .unsupportedVersion c.version
  | .windowMillis => e = .outOfRange .windowMillis c.windowMillis.toNat 1 3600000
  | .component => e = .badKey .component
      (if trim c.component = "" then .blank .component c.component.utf8ByteSize
      else .separator (trim c.component))
  | .anonymousUser => e = .badKey .anonymousUser (.blank .user c.anonymousUser.utf8ByteSize)
  | .userPrefix => e = .slashInUserPrefix
  | .concatCap => e = .outOfRange .concatCap c.concatCap.toNat 1 1000000
  | .historySize => e = .outOfRange .historySize c.historySize.toNat 1 10000
  | .sinks =>
    ¬GoodLength c.sinks ∧ e = (if c.sinks = [] then .noSinks else .tooManySinks c.sinks.length) ∨
      GoodLength c.sinks ∧ ∃ before sink after, c.sinks = before ++ sink :: after ∧
        FreshNames [] before ∧ SinkOffends (before.map trim) sink e
  | .historyKey | .logLevel | .logJson => False

/-- The fault of one setting. -/
def faultOf (c : Config) : ConfigField → Option ConfigError
  | .version => if c.version = supportedVersion then none else some (.unsupportedVersion c.version)
  | .windowMillis => rangeFault? .windowMillis c.windowMillis.toNat 1 3600000
  | .component => keyFault? .component (ComponentKey.read c.component)
  | .anonymousUser => keyFault? .anonymousUser (UserId.read c.anonymousUser)
  | .userPrefix => if '/' ∈ c.userPrefix.toList then some .slashInUserPrefix else none
  | .concatCap => rangeFault? .concatCap c.concatCap.toNat 1 1000000
  | .historySize => rangeFault? .historySize c.historySize.toNat 1 10000
  | .sinks => sinksFault? c.sinks
  | .historyKey | .logLevel | .logJson => none

theorem fault?_eq_findSome? (c : Config) : c.fault? = ruled.findSome? c.faultOf := rfl

theorem freshNames_nil_iff {sinks : List String} :
    FreshNames [] sinks ↔ (∀ sink ∈ sinks, trim sink ≠ "") ∧ (sinks.map trim).Nodup :=
  ⟨fun h => ⟨h.nonblank, h.distinct⟩, fun h => ⟨h.1, by simp, h.2⟩⟩

theorem sinksFault?_eq_none_iff : sinksFault? c.sinks = none ↔ c.Keeps .sinks := by
  rw [Keeps, ← freshNames_nil_iff, ← sinkFault?_eq_none_iff]
  by_cases hlength : GoodLength c.sinks
  · rw [sinksFault?_of_goodLength hlength, and_iff_right hlength]
  · simp [sinksFault?_of_not_goodLength hlength, hlength]

theorem sinksFault?_eq_some_iff : sinksFault? c.sinks = some e ↔ c.Reports e .sinks := by
  rw [Reports]
  by_cases hlength : GoodLength c.sinks
  · simp only [sinksFault?_of_goodLength hlength, sinkFault?_eq_some_iff, List.append_nil, hlength,
      not_true_eq_false, false_and, false_or, true_and]
  · simp [sinksFault?_of_not_goodLength hlength, hlength, eq_comm (a := e)]

theorem faultOf_eq_some_iff : c.faultOf f = some e ↔ ¬c.Keeps f ∧ c.Reports e f := by
  cases f with
  | version =>
    have hversion : supportedVersion = 1 := rfl
    by_cases h : c.version = 1 <;> simp [faultOf, Keeps, Reports, hversion, h, eq_comm (a := e)]
  | windowMillis | concatCap | historySize => exact rangeFault?_eq_some_iff
  | component => exact componentFault?_eq_some_iff
  | anonymousUser => exact userFault?_eq_some_iff
  | userPrefix =>
    by_cases h : '/' ∈ c.userPrefix.toList <;>
      simp [faultOf, Keeps, Reports, h, eq_comm (a := e)]
  | sinks =>
    rw [← sinksFault?_eq_none_iff, ← sinksFault?_eq_some_iff]
    exact ⟨fun h => ⟨fun hnone => Option.some_ne_none e (h.symm.trans hnone), h⟩, fun h => h.2⟩
  | historyKey | logLevel | logJson => simp [faultOf, Reports]

/-- A broken rule has a report. -/
theorem exists_reports (h : ¬c.Keeps f) : ∃ e, c.Reports e f := by
  cases f with
  | sinks =>
    rw [← sinksFault?_eq_none_iff] at h
    obtain ⟨e, he⟩ := Option.ne_none_iff_exists'.1 h
    exact ⟨e, sinksFault?_eq_some_iff.1 he⟩
  | historyKey | logLevel | logJson => exact absurd trivial h
  | _ => exact ⟨_, rfl⟩

theorem faultOf_eq_none_iff : c.faultOf f = none ↔ c.Keeps f := by
  constructor
  · intro hnone
    refine Decidable.byContradiction fun hbroken => ?_
    obtain ⟨e, he⟩ := exists_reports hbroken
    rw [faultOf_eq_some_iff.2 ⟨hbroken, he⟩] at hnone
    cases hnone
  · intro hkeeps
    cases hfault : c.faultOf f with
    | none => rfl
    | some e => exact absurd hkeeps (faultOf_eq_some_iff.1 hfault).1

theorem fault?_eq_none_iff_keeps : c.fault? = none ↔ ∀ f, c.Keeps f := by
  rw [fault?_eq_findSome?, List.findSome?_eq_none_iff]
  constructor
  · intro h f
    -- the settings without a rule keep it whatever they are
    cases f with
    | historyKey | logLevel | logJson => trivial
    | _ => exact faultOf_eq_none_iff.1 (h _ (by decide))
  · exact fun h f _ => faultOf_eq_none_iff.2 (h f)

/-- A report names the setting that it is about. -/
theorem Reports.field_eq (h : c.Reports e f) : e.field = f := by
  cases f with
  | sinks =>
    rcases h with ⟨-, rfl⟩ | ⟨-, before, sink, after, -, -, ⟨-, rfl⟩ | ⟨-, -, rfl⟩⟩
    · split <;> rfl
    · rfl
    · rfl
  | historyKey | logLevel | logJson => cases h
  | _ => subst h; rfl

/-- The fault is that of the first rule that is broken, and names its setting. -/
theorem fault?_eq_some_iff : c.fault? = some e ↔
    ∃ earlier f later, ruled = earlier ++ f :: later ∧ (∀ g ∈ earlier, c.Keeps g) ∧
      ¬c.Keeps f ∧ c.Reports e f ∧ e.field = f := by
  simp only [fault?_eq_findSome?, List.findSome?_eq_some_iff, faultOf_eq_some_iff,
    faultOf_eq_none_iff]
  constructor
  · rintro ⟨earlier, f, later, hruled, ⟨hbroken, hreports⟩, hkept⟩
    exact ⟨earlier, f, later, hruled, hkept, hbroken, hreports, hreports.field_eq⟩
  · rintro ⟨earlier, f, later, hruled, hkept, hbroken, hreports, -⟩
    exact ⟨earlier, f, later, hruled, ⟨hbroken, hreports⟩, hkept⟩

theorem validate_eq_ok_iff {v : ValidConfig} :
    c.validate = .ok v ↔ c.fault? = none ∧ v.config = c.normalized := by
  cases hfault : c.fault? with
  | some e => simp [validate_of_fault hfault]
  | none =>
    rw [validate_of_accepted hfault]
    constructor
    · intro h
      cases h
      exact ⟨rfl, rfl⟩
    · rintro ⟨-, h⟩
      exact congrArg Except.ok (ValidConfig.eq_of_config_eq h.symm)

theorem validate_eq_error_iff : c.validate = .error e ↔ c.fault? = some e := by
  cases hfault : c.fault? with
  | some e' => simp [validate_of_fault hfault]
  | none => simp [validate_of_accepted hfault]

end Config

/-- Settings are accepted just if they keep all the rules. What is accepted is the settings without
the blanks around the component, the anonymous user and the sinks, and is accepted again as it is.
What is reported is the first broken rule, with the setting that it is about. -/
theorem settings_accepted_iff (c : Config) :
    ((∃ v, c.validate = .ok v) ↔ ∀ f, c.Keeps f) ∧
    (∀ v, c.validate = .ok v →
      v.config = { c with
        component := trim c.component
        anonymousUser := trim c.anonymousUser
        sinks := c.sinks.map trim } ∧
      v.component.text = trim c.component ∧ v.anonymousUser.text = trim c.anonymousUser ∧
      v.config.validate = .ok v) ∧
    ∀ e, c.validate = .error e ↔
      ∃ earlier f later, Config.ruled = earlier ++ f :: later ∧ (∀ g ∈ earlier, c.Keeps g) ∧
        ¬c.Keeps f ∧ c.Reports e f ∧ e.field = f := by
  refine ⟨?_, fun v hv => ?_, fun e => ?_⟩
  · rw [← Config.fault?_eq_none_iff_keeps]
    constructor
    · rintro ⟨v, hv⟩
      exact (Config.validate_eq_ok_iff.1 hv).1
    · exact fun h => ⟨_, Config.validate_of_accepted h⟩
  · have hconfig := (Config.validate_eq_ok_iff.1 hv).2
    have hcomponent := ComponentKey.text_of_read v.read_component
    have hanonymous := UserId.text_of_read v.read_anonymousUser
    rw [hconfig] at hcomponent hanonymous
    exact ⟨hconfig, hcomponent.trans (trim_trim _), hanonymous.trans (trim_trim _),
      v.validate_config⟩
  · exact Config.validate_eq_error_iff.trans Config.fault?_eq_some_iff

/-- Sinks with blanks in and around their names. -/
def Config.spaced : Config := { component := " gateway\n", sinks := ["b ", " a", "b c"] }

/-- Three broken rules, of which the second and the third one are broken by texts. -/
def Config.faulty : Config := { windowMillis := 0, userPrefix := "/", sinks := [" a", "a", ""] }

theorem settings_accepted_iff_spaced :
    (∃ v, Config.spaced.validate = .ok v ∧
      v.config = { component := "gateway", sinks := ["b", "a", "b c"] }) ∧
    Config.faulty.validate = .error (.outOfRange .windowMillis 0 1 3600000) ∧
    Config.validate { sinks := ["b", " a", "a\n", ""] } = .error (.duplicateSink "a") := by
  refine ⟨?_, ?_, ?_⟩
  · obtain ⟨haccepted, hnormal, -⟩ := settings_accepted_iff Config.spaced
    obtain ⟨v, hv⟩ := haccepted.2 fun f => by cases f <;> decide +kernel
    refine ⟨v, hv, ?_⟩
    rw [(hnormal v hv).1]
    decide +kernel
  · exact ((settings_accepted_iff Config.faulty).2.2 _).2
      ⟨[.version], .windowMillis, _, rfl, by decide, by decide, rfl, rfl⟩
  · have hbefore : FreshNames [] ["b", " a"] := Config.freshNames_nil_iff.2 (by decide +kernel)
    refine ((settings_accepted_iff { sinks := ["b", " a", "a\n", ""] }).2.2 _).2
      ⟨[.version, .windowMillis, .component, .anonymousUser, .userPrefix, .concatCap,
        .historySize], .sinks, [], rfl, by decide +kernel, by decide +kernel, ?_, rfl⟩
    exact .inr ⟨by decide, ["b", " a"], "a\n", [""], rfl, hbefore, .inr (by decide +kernel)⟩

end CallMetrics
