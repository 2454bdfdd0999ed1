import Mathlib.Data.List.Forall2
import CallMetrics.Proofs.Log.Secrets
import CallMetrics.Proofs.Sink.Lines

/-! The lines that a logger writes. A line is read as an event (`ofValue?_payload`) that tells the one
it was written for, with the fields of the logger and without secrets (`tells_told`). Main statement:
what writers of metric lines and of log lines have written is one line for each thing they took and
nothing else, and each line is read as what was taken. -/

namespace CallMetrics
open Decode

theorem redactItems_eq_map (items : List Value) : redactItems items = items.map Value.redacted := by
  induction items with
  | nil => rfl
  | cons v rest ih => rw [redactItems, ih, List.map_cons]

namespace Value.Expressible

theorem redacted {v : Value} (h : v.Expressible) : v.redacted.Expressible := by
  induction h with
  | null => exact .null
  | bool b => exact .bool b
  | int hleast hmost => exact .int hleast hmost
  | text s => exact .text s
  | @list items _ ih =>
    rw [Value.redacted, redactItems_eq_map]
    exact .list (List.forall_mem_map.2 ih)
  | @record members _ ih =>
    rw [Value.redacted, redactMembers_eq_map]
    refine .record (List.forall_mem_map.2 fun m hm => ?_)
    dsimp only
    split
    · exact .text _
    · exact ih m hm

theorem merge {first second : Fields} (hfirst : (ofDict first).Expressible)
    (hsecond : (ofDict second).Expressible) : (ofDict (first.merge second)).Expressible := by
  refine .record fun e he => ?_
  have hget := Dict.get?_eq_some_iff.2 he
  rw [Dict.get?_merge, Option.or_eq_some_iff] at hget
  rcases hget with hget | ⟨-, hget⟩
  · exact record_iff.1 hsecond e (Dict.get?_eq_some_iff.1 hget)
  · exact record_iff.1 hfirst e (Dict.get?_eq_some_iff.1 hget)

theorem redactFields {fields : Fields} (h : (ofDict fields).Expressible) :
    (ofDict (redactFields fields)).Expressible := by
  rw [ofDict_redactFields]
  exact h.redacted

end Value.Expressible

namespace LogEvent

/-- All numbers in the fields and the error are integers. -/
structure Exact (e : LogEvent) : Prop where
  fields : ∀ fields ∈ e.fields, (Value.ofDict fields).Expressible
  error : ∀ error ∈ e.error, error.Expressible

def dict? : Value → Option Fields
  | .record members => some (Dict.ofList members)
  | _ => none

/-- A record with a level, a name and a message; without fields or error if it has none. -/
def ofValue? (v : Value) : Option LogEvent :=
  match Decode.fields json false ["level", "event", "message", "fields", "error"] v with
  | some [level, event, message, fields, error] => do
    return {
      level := ← required (choice json LogLevel.ofName?) level
      event := ← required text event
      message := ← required text message
      fields := ← optional json dict? fields
      error }
  | _ => none

def read? (line : String) : Option LogEvent := (Json.read line).bind ofValue?

end LogEvent

theorem LogLevel.choice_name (level : LogLevel) :
    choice json LogLevel.ofName? (.text level.name) = some level := by
  cases level <;> rfl

/-- The second event tells the first one, given to the logger: both have the same level, name and
message, and the second one has the union of the logger's and the event's fields, and the error, with
the mask in the place of secrets. It has no fields if that union is empty. -/
structure Logger.Tells (l : Logger) (e told : LogEvent) : Prop where
  level : told.level = e.level
  event : told.event = e.event
  message : told.message = e.message
  fields : ∃ merged : Fields, merged.IsUnion (l.base :: e.fields.toList) ∧
    Option.Rel (fun fields shown => (Value.record fields.entries).RedactedTo (.record shown.entries))
      (if merged.isEmpty then none else some merged) told.fields
  error : Option.Rel Value.RedactedTo e.error told.error

namespace Logger
variable (l : Logger)

/-- The event as it is read. -/
def told (e : LogEvent) : LogEvent :=
  let fields := redactFields (l.merged e)
  { e with
    fields := if fields.isEmpty then none else some fields
    error := e.error.map Value.redacted }

theorem tells_told (e : LogEvent) : l.Tells e (l.told e) where
  level := rfl
  event := rfl
  message := rfl
  fields := by
    have hempty : (redactFields (l.merged e)).isEmpty = (l.merged e).isEmpty := List.isEmpty_map
    refine ⟨l.merged e, l.isUnion_merged e, ?_⟩
    simp only [told, hempty]
    cases (l.merged e).isEmpty with
    | true => exact .none
    | false =>
      exact .some (redactedTo_redactFields _)
  error := by
    rw [told]
    cases e.error with
    | none => exact .none
    | some v => exact .some v.redactedTo_redacted

theorem ofValue?_payload (now : Int64) (e : LogEvent) :
    LogEvent.ofValue? (l.payload now e) = some (l.told e) := by
  have hlevel := e.level.choice_name
  have hfields : fields json false ["level", "event", "message", "fields", "error"]
      (l.payload now e) = some [some (.text e.level.name), some (.text e.event),
        some (.text e.message), (l.told e).fields.map Value.ofDict, e.error.map Value.redacted] := by
    cases hempty : (redactFields (l.merged e)).isEmpty <;> cases herror : e.error <;>
      simp [fields, distinct, payload, told, hempty, herror, Dict.find?]
  have hdict : optional json LogEvent.dict? ((l.told e).fields.map Value.ofDict) =
      some (l.told e).fields := by
    cases (l.told e).fields with
    | none => rfl
    | some fields => exact congrArg (fun d => some (some d)) (Dict.ofList_entries fields)
  simp only [LogEvent.ofValue?, hfields, required_some, hlevel, hdict]
  rfl

variable {l}

theorem expressible_payload (hbase : (Value.ofDict l.base).Expressible) (now : Int64) {e : LogEvent}
    (he : e.Exact) : (l.payload now e).Expressible := by
  have hown : (Value.ofDict (e.fields.getD ∅)).Expressible := by
    cases hfields : e.fields with
    | none => exact .record fun _ h => by cases h
    | some fields => exact he.fields fields hfields
  have hmerged : (Value.ofDict (redactFields (l.merged e))).Expressible :=
    (hbase.merge hown).redactFields
  have hstamp := Value.Expressible.ofInt64 now
  have herror := he.error
  simp only [payload]
  generalize Value.ofDict (redactFields (l.merged e)) = fields at hmerged ⊢
  generalize Value.int now.toInt = stamp at hstamp ⊢
  generalize e.error = error at herror ⊢
  cases error with
  | none => cases (redactFields (l.merged e)).isEmpty <;> simp [hmerged, hstamp]
  | some v =>
    have hv := (herror v rfl).redacted
    cases (redactFields (l.merged e)).isEmpty <;> simp [hmerged, hstamp, hv]

/-- All that a logger writes of some events, each at its time. -/
def text (l : Logger) (events : List (Int64 × LogEvent)) : String :=
  String.join (events.filterMap fun (now, e) =>
    match l.record now e with
    | some (.line line) => some line
    | _ => none)

/-- The payloads of the events that are of the level of the lines or above. -/
def payloads (l : Logger) (least : LogLevel) (events : List (Int64 × LogEvent)) : List Value :=
  (events.filter (least ≤ ·.2.level)).map fun e => l.payload e.1 e.2

theorem text_eq {least : LogLevel} (hbackend : l.backend = .json least)
    (events : List (Int64 × LogEvent)) :
    l.text events = String.join ((l.payloads least events).map Json.compactLine) := by
  rw [text, payloads, List.map_map]
  congr 1
  induction events with
  | nil => rfl
  | cons step rest ih =>
    by_cases hlevel : least ≤ step.2.level
    · rw [List.filter_cons_of_pos (by simpa using hlevel), List.map_cons, ← ih, List.filterMap_cons]
      simp only [record, hbackend, if_pos hlevel]
      rfl
    · rw [List.filter_cons_of_neg (by simpa using hlevel), ← ih, List.filterMap_cons]
      simp only [record, hbackend, if_neg hlevel]

end Logger

/-- Whatever calls are made, a writer of metric lines and a sink that records answer them alike and take
the well-formed emissions; the writer has then written one line for each of them, in their order, and the
line is read as the emission with the tags of the writer. So it is for a logger and the events of its
level or above. -/
theorem written_lines_read_back (tags : Dict String) (calls : List (Clock × SinkCall))
    (label label' : String) (l : Logger) {least : LogLevel} (hbackend : l.backend = .json least)
    (hbase : (Value.ofDict l.base).Expressible) {events : List (Int64 × LogEvent)}
    (hevents : ∀ e ∈ events, e.2.Exact) :
    let written := (Sink.lines label tags).answerAll calls .empty
    let recorded := (Sink.recording label').answerAll calls .empty
    (written.1 = calls.map (·.2.verdict) ∧ recorded.1 = written.1 ∧
      recorded.2.emissions label' = calls.filterMap (·.2.accepted?) ∧
      ∃ lines, IsLines (written.2.text label) lines ∧
        lines.map MetricLine.read? = (recorded.2.emissions label').map fun e =>
          some ⟨e, tags.map fun name text => if isSecretKey name then secretMask else text⟩) ∧
      ∃ lines, IsLines (l.text events) lines ∧
        List.Forall₂ (fun e line => ∃ told, LogEvent.read? line = some told ∧ l.Tells e.2 told)
          (events.filter (least ≤ ·.2.level)) lines := by
  intro written recorded
  obtain ⟨hwritten, htexts⟩ := Sink.answerAll_lines label tags calls .empty
  obtain ⟨hrecorded, hemissions⟩ := Sink.answerAll_recording label' calls .empty
  have hstart : Journal.empty.texts label = [] := rfl
  have hstart' : Journal.empty.emissions label' = [] := rfl
  rw [hstart, List.nil_append] at htexts
  rw [hstart', List.nil_append] at hemissions
  have hpayload : ∀ e ∈ events.filter (least ≤ ·.2.level), (l.payload e.1 e.2).Expressible :=
    fun e he => Logger.expressible_payload hbase e.1 (hevents e (List.mem_filter.1 he).1)
  refine ⟨⟨hwritten, hrecorded.trans hwritten.symm, hemissions,
    (Sink.metricValues tags calls).map Json.compact, ?_, ?_⟩,
    (l.payloads least events).map Json.compact, ?_, ?_⟩
  · rw [Journal.text, htexts]
    exact Json.isLines_compactLine (MetricLine.expressible_metricValues tags calls)
  · rw [hemissions, List.map_map]
    exact MetricLine.map_read?_metricValues tags calls
  · rw [Logger.text_eq hbackend events]
    exact Json.isLines_compactLine (List.forall_mem_map.2 hpayload)
  · rw [Logger.payloads, List.map_map, List.forall₂_map_right_iff, List.forall₂_same]
    refine fun e he => ⟨l.told e.2, ?_, l.tells_told e.2⟩
    rw [Function.comp_apply, LogEvent.read?, Json.read_compact (hpayload e he)]
    exact l.ofValue?_payload e.1 e.2

/-- A logger with line ends and quotes in its fields. -/
def Logger.broken : Logger := ⟨.json .info, Dict.empty.insert "no\nte" (.text "\"a\",\r\n\u0000é")⟩

/-- A step of some work, with a secret, and an error that is a text of two lines. -/
def LogEvent.step (level : LogLevel) : LogEvent :=
  ⟨level, "step", "one\ntwo", some (Dict.empty.insert "apiKey" (.int 7)), some (.text "a\nb")⟩

theorem LogEvent.exact_step (level : LogLevel) : (step level).Exact where
  fields := by
    intro fields hfields
    obtain rfl := Option.some.inj hfields
    exact .record (List.forall_mem_singleton.2 (.int (by decide) (by decide)))
  error := by
    intro error herror
    obtain rfl := Option.some.inj herror
    exact .text _

theorem written_lines_read_back_broken :
    let key : MetricKey := ⟨"a\nb\"\u0000"⟩
    let events := [(5, LogEvent.step .debug), (7, LogEvent.step .error)]
    let calls := [(Clock.started 1 1, SinkCall.gauge key 4), (.started 2 1, .emit ⟨key, .gauge, []⟩)]
    Logger.broken.backend = .json .info ∧ (Value.ofDict Logger.broken.base).Expressible ∧
      (∀ e ∈ events, e.2.Exact) ∧
      ((Sink.lines "lines" ∅).answerAll calls .empty).1 =
        [.ok (), .error (.invalidValues key .gauge 0)] ∧
      ∃ line told, IsLines (Logger.broken.text events) [line] ∧ LogEvent.read? line = some told ∧
        Logger.broken.Tells (.step .error) told := by
  intro key events calls
  have hbase : (Value.ofDict Logger.broken.base).Expressible :=
    .record (List.forall_mem_singleton.2 (.text _))
  have hevents : ∀ e ∈ events, e.2.Exact := List.forall_mem_cons.2
    ⟨LogEvent.exact_step .debug, List.forall_mem_singleton.2 (LogEvent.exact_step .error)⟩
  obtain ⟨⟨hverdicts, -⟩, lines, hlines, htold⟩ :=
    written_lines_read_back ∅ calls "lines" "log" Logger.broken rfl hbase hevents
  obtain ⟨line, _, ⟨told, hread, htells⟩, hnone, rfl⟩ := List.forall₂_cons_left_iff.1 htold
  obtain rfl := List.forall₂_nil_left_iff.1 hnone
  exact ⟨rfl, hbase, hevents, hverdicts, line, told, hlines, hread, htells⟩

end CallMetrics
