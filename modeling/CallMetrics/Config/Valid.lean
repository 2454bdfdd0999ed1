import CallMetrics.Config.Basic
import CallMetrics.Key.Segment

/-! Valid settings. `Config.fault?` gives the first broken rule, in a fixed order; settings without
a fault are normalized, which trims the component, the anonymous user and the sinks. Normalized
settings have the same fault, if any (`fault?_normalized`), so the result of `validate` is valid
and normal again. -/

namespace CallMetrics
open Text

inductive ConfigError
  | unsupportedVersion (found : UInt32)
  | outOfRange (field : ConfigField) (value least most : Nat)
  | badKey (field : ConfigField) (cause : KeyError)
  | slashInUserPrefix
  | noSinks
  | tooManySinks (count : Nat)
  | blankSink
  | duplicateSink (name : String)
  deriving DecidableEq

def supportedVersion : UInt32 := 1

def maxSinks : Nat := 64

namespace ConfigError

def field : ConfigError → ConfigField
  | unsupportedVersion _ => .version
  | outOfRange field _ _ _ => field
  | badKey field _ => field
  | slashInUserPrefix => .userPrefix
  | noSinks | tooManySinks _ | blankSink | duplicateSink _ => .sinks

/-- What is wrong with a single text, if that is the fault. -/
def reason? : ConfigError → Option String
  | badKey _ cause => some cause.message
  | slashInUserPrefix => some "must not contain '/'"
  | blankSink => some "sink names must be non-empty"
  | _ => none

def message (e : ConfigError) : String :=
  match e with
  | unsupportedVersion found =>
    "unsupported config version: " ++ toString found.toNat ++ " (supported: " ++
      toString supportedVersion.toNat ++ ")"
  | outOfRange field value least most =>
    field.path ++ " must be within [" ++ toString least ++ ", " ++ toString most ++ "] (got " ++
      toString value ++ ")"
  | noSinks => e.field.path ++ " must have at least one entry"
  | tooManySinks count =>
    e.field.path ++ " must have at most " ++ toString maxSinks ++ " entries (got " ++
      toString count ++ ")"
  | duplicateSink name => e.field.path ++ " lists `" ++ name ++ "` more than once"
  | badKey _ _ | slashInUserPrefix | blankSink =>
    "invalid " ++ e.field.path ++ ": " ++ e.reason?.getD ""

def codeName : ConfigError → String
  | unsupportedVersion _ => "unsupported_version"
  | outOfRange _ _ _ _ => "invalid_limit"
  | badKey _ _ | slashInUserPrefix | blankSink => "invalid_field"
  | noSinks => "empty_list"
  | tooManySinks _ => "list_too_large"
  | duplicateSink _ => "duplicate_entry"

def toFailure (e : ConfigError) : Failure :=
  let failure := Failure.expected ⟨"config", e.codeName⟩ e.message
  let placed := (failure.note "section" e.field.group).note "field" e.field.label
  match e with
  | unsupportedVersion found =>
    (failure.note "found" (toString found.toNat)).note "supported" (toString supportedVersion.toNat)
  | outOfRange _ value least most =>
    ((placed.note "value" (toString value)).note "min" (toString least)).note "max" (toString most)
  | noSinks => placed
  | tooManySinks count => (placed.note "len" (toString count)).note "max" (toString maxSinks)
  | duplicateSink name => placed.note "entry" name
  | badKey _ _ | slashInUserPrefix | blankSink => placed.note "reason" (e.reason?.getD "")

end ConfigError

def rangeFault? (field : ConfigField) (value least most : Nat) : Option ConfigError :=
  if value < least ∨ most < value then some (.outOfRange field value least most) else none

def keyFault? {α : Type} (field : ConfigField) : Except KeyError α → Option ConfigError
  | .error cause => some (.badKey field cause)
  | .ok _ => none

/-- The first sink name that is blank, or equal to one before it, when both are trimmed. -/
def sinkFault? (seen : List String) : List String → Option ConfigError
  | [] => none
  | sink :: rest =>
    let name := trim sink
    if name = "" then some .blankSink
    else if name ∈ seen then some (.duplicateSink name)
    else sinkFault? (name :: seen) rest

def sinksFault? (sinks : List String) : Option ConfigError :=
  if sinks = [] then some .noSinks
  else if maxSinks < sinks.length then some (.tooManySinks sinks.length)
  else sinkFault? [] sinks

namespace Config

/-- The rules that settings keep, each with its fault, in the order they are checked. -/
def faults (c : Config) : List (Option ConfigError) := [
  if c.version = supportedVersion then none else some (.unsupportedVersion c.version),
  rangeFault? .windowMillis c.windowMillis.toNat 1 3600000,
  keyFault? .component (ComponentKey.read c.component),
  keyFault? .anonymousUser (UserId.read c.anonymousUser),
  if '/' ∈ c.userPrefix.toList then some .slashInUserPrefix else none,
  rangeFault? .concatCap c.concatCap.toNat 1 1000000,
  rangeFault? .historySize c.historySize.toNat 1 10000,
  sinksFault? c.sinks]

def fault? (c : Config) : Option ConfigError := c.faults.findSome? id

def normalized (c : Config) : Config :=
  { c with
    component := trim c.component
    anonymousUser := trim c.anonymousUser
    sinks := c.sinks.map trim }

end Config

theorem readTrimmed_trim {part : KeyPart} {raw : String} (h : trim raw ≠ "") :
    readTrimmed part (trim raw) = readTrimmed part raw := by
  simp [readTrimmed, trim_trim, h]

theorem readTrimmed_eq_ok {part : KeyPart} {raw : String} {s : { s : String // Trimmed s }}
    (h : readTrimmed part raw = .ok s) : s.1 = trim raw := by
  unfold readTrimmed at h
  by_cases hb : trim raw = ""
  · simp [hb] at h
  · simp only [hb, dite_false] at h
    cases h
    rfl

theorem readSegment_trim {part : KeyPart} {raw : String} (h : trim raw ≠ "") :
    readSegment part (trim raw) = readSegment part raw := by
  rw [readSegment, readTrimmed_trim h, readSegment]

theorem readSegment_eq_ok {part : KeyPart} {raw : String}
    {s : { s : String // Trimmed s ∧ '/' ∉ s.toList }} (h : readSegment part raw = .ok s) :
    s.1 = trim raw := by
  unfold readSegment at h
  cases hr : readTrimmed part raw with
  | error e => simp [hr] at h
  | ok t =>
    simp only [hr] at h
    split at h
    · simp at h
    · cases h
      exact readTrimmed_eq_ok hr

theorem ComponentKey.read_trim {raw : String} (h : trim raw ≠ "") : read (trim raw) = read raw := by
  rw [read, readSegment_trim h, read]

theorem ComponentKey.text_of_read {raw : String} {k : ComponentKey} (h : read raw = .ok k) :
    k.text = trim raw := by
  unfold read at h
  cases hr : readSegment .component raw with
  | error e => simp [hr, Except.map] at h
  | ok s =>
    simp only [hr, Except.map] at h
    cases h
    exact readSegment_eq_ok hr

theorem UserId.read_trim {raw : String} (h : trim raw ≠ "") : read (trim raw) = read raw := by
  rw [read, readTrimmed_trim h, read]

theorem UserId.text_of_read {raw : String} {u : UserId} (h : read raw = .ok u) :
    u.text = trim raw := by
  unfold read at h
  cases hr : readTrimmed .user raw with
  | error e => simp [hr, Except.map] at h
  | ok s =>
    simp only [hr, Except.map] at h
    cases h
    exact readTrimmed_eq_ok hr

theorem sinkFault?_map_trim (seen sinks : List String) :
    sinkFault? seen (sinks.map trim) = sinkFault? seen sinks := by
  induction sinks generalizing seen with
  | nil => rfl
  | cons sink rest ih => simp [sinkFault?, trim_trim, ih]

theorem sinksFault?_map_trim (sinks : List String) :
    sinksFault? (sinks.map trim) = sinksFault? sinks := by
  simp [sinksFault?, sinkFault?_map_trim]

theorem exists_ok_of_keyFault? {α : Type} {field : ConfigField} {r : Except KeyError α}
    (h : keyFault? field r = none) : ∃ a, r = .ok a := by
  cases r with
  | error e => simp [keyFault?] at h
  | ok a => exact ⟨a, rfl⟩

namespace Config

theorem fault?_eq_none_iff {c : Config} : c.fault? = none ↔ ∀ f ∈ c.faults, f = none := by
  simp [fault?, List.findSome?_eq_none_iff]

theorem normalized_normalized (c : Config) : c.normalized.normalized = c.normalized := by
  simp [normalized, trim_trim, Function.comp_def]

theorem exists_component {c : Config} (h : c.fault? = none) :
    ∃ k, ComponentKey.read c.component = .ok k := by
  have hk : keyFault? .component (ComponentKey.read c.component) = none :=
    fault?_eq_none_iff.1 h _ (by simp [faults])
  exact exists_ok_of_keyFault? hk

theorem exists_anonymousUser {c : Config} (h : c.fault? = none) :
    ∃ u, UserId.read c.anonymousUser = .ok u := by
  have hu : keyFault? .anonymousUser (UserId.read c.anonymousUser) = none :=
    fault?_eq_none_iff.1 h _ (by simp [faults])
  exact exists_ok_of_keyFault? hu

theorem fault?_normalized {c : Config} (h : c.fault? = none) : c.normalized.fault? = none := by
  obtain ⟨k, hk⟩ := exists_component h
  obtain ⟨u, hu⟩ := exists_anonymousUser h
  have hcomponent : trim c.component ≠ "" := ComponentKey.text_of_read hk ▸ k.trimmed.1
  have hanonymous : trim c.anonymousUser ≠ "" := UserId.text_of_read hu ▸ u.trimmed.1
  have hfaults : c.normalized.faults = c.faults := by
    simp only [faults, normalized, ComponentKey.read_trim hcomponent, UserId.read_trim hanonymous,
      sinksFault?_map_trim]
    rfl
  rw [fault?, hfaults]
  exact h

end Config

/-- Settings that keep all the rules, in normal form. -/
structure ValidConfig where
  config : Config
  accepted : config.fault? = none
  normal : config.normalized = config

namespace Config

/-- The normal form of settings that keep all the rules, or the first broken rule. -/
def validate (c : Config) : Except ConfigError ValidConfig :=
  match h : c.fault? with
  | some e => .error e
  | none => .ok ⟨c.normalized, fault?_normalized h, c.normalized_normalized⟩

theorem validate_of_fault {c : Config} {e : ConfigError} (h : c.fault? = some e) :
    c.validate = .error e := by
  unfold validate
  split
  next e' h' => exact congrArg Except.error (Option.some.inj (h'.symm.trans h))
  next h' => rw [h] at h'; cases h'

theorem validate_of_accepted {c : Config} (h : c.fault? = none) :
    c.validate = .ok ⟨c.normalized, fault?_normalized h, c.normalized_normalized⟩ := by
  unfold validate
  split
  next e h' => rw [h] at h'; cases h'
  next h' => rfl

end Config

namespace ValidConfig

theorem eq_of_config_eq {v v' : ValidConfig} (h : v.config = v'.config) : v = v' := by
  cases v
  cases v'
  cases h
  rfl

/-- Valid settings are normal already. -/
theorem validate_config (v : ValidConfig) : v.config.validate = .ok v :=
  (Config.validate_of_accepted v.accepted).trans (congrArg Except.ok (eq_of_config_eq v.normal))

def component (v : ValidConfig) : ComponentKey :=
  match h : ComponentKey.read v.config.component with
  | .ok k => k
  | .error _ => absurd (Config.exists_component v.accepted) (by simp [h])

/-- The user of calls whose user cannot be found out. -/
def anonymousUser (v : ValidConfig) : UserId :=
  match h : UserId.read v.config.anonymousUser with
  | .ok u => u
  | .error _ => absurd (Config.exists_anonymousUser v.accepted) (by simp [h])

theorem read_component (v : ValidConfig) :
    ComponentKey.read v.config.component = .ok v.component := by
  obtain ⟨k, hk⟩ := Config.exists_component v.accepted
  unfold component
  split
  · assumption
  · rename_i h
    simp [h] at hk

theorem read_anonymousUser (v : ValidConfig) :
    UserId.read v.config.anonymousUser = .ok v.anonymousUser := by
  obtain ⟨u, hu⟩ := Config.exists_anonymousUser v.accepted
  unfold anonymousUser
  split
  · assumption
  · rename_i h
    simp [h] at hu

end ValidConfig

theorem fault?_default : ({} : Config).fault? = none := by decide +kernel

def ValidConfig.default : ValidConfig := ⟨{}, fault?_default, by decide +kernel⟩

end CallMetrics
