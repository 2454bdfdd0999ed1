import Mathlib.Data.List.Forall2
import CallMetrics.Log.Calls
import CallMetrics.Proofs.Log.Secrets

/-! What children of loggers inherit. Each logger of a program is the one that its own chain of child fields
leads to, whatever other children have been made (`Mirrors`). Main statement: over a whole program the
backends show, call by call, the same fields and the same errors. -/

namespace CallMetrics

/-- An event with the fields of the logger that it is given to and of those that this one comes from, the
earliest first. -/
structure HeardEvent where
  chain : List Fields
  event : LogEvent

/-- The loggers of a program as the chains of fields that lead to them, and what each call gives to which
of them. -/
structure LogFamily where
  chains : List (List Fields)
  heard : List HeardEvent

namespace LogFamily

def start : LogFamily := ⟨[[]], []⟩

def step (f : LogFamily) : LogStep → LogFamily
  | .child parent fields =>
    { f with chains := f.chains ++ (f.chains[parent]?.map (· ++ [fields])).toList }
  | .call logger _ call =>
    { f with heard := f.heard ++ (f.chains[logger]?.map (⟨·, call.event⟩)).toList }

def run (f : LogFamily) (steps : List LogStep) : LogFamily := steps.foldl step f

end LogFamily

/-- The fields that an event has with those that it inherits; an event without fields adds none. -/
def HeardEvent.fields (h : HeardEvent) : Fields := Dict.union (h.chain ++ h.event.fields.toList)

/-- The error of the event, if it has one, is no number without digits. -/
def LogEvent.Legible (e : LogEvent) : Prop := e.error ≠ some (.real "")

theorem LogEvent.legible_ofFailure (level : LogLevel) (event : String) (f : Failure)
    (fields : Option Fields) : (ofFailure level event f fields).Legible := by
  intro h
  cases Option.some.inj h

def LogStep.Legible : LogStep → Prop
  | child _ _ => True
  | call _ _ told => told.event.Legible

/-- The backend hands on events of this level. -/
def LogBackend.takes : LogBackend → LogLevel → Bool
  | json least, level => least ≤ level
  | tracing, _ | capture, _ => true
  | silent, _ => false

/-- A record shows fields and an error: as they are if it is a captured event, without secrets as members
of a line or as texts of a trace event. If there is no error, the record has none. -/
def LogRecord.Shows (fields : Fields) (error : Option Value) : LogRecord → Prop
  | line text => ∃ payload, text = Json.compactLine payload ∧
      (payload.member? "fields").getD (.record []) = .record (redactFields fields).entries ∧
      payload.member? "error" = error.map Value.redacted
  | trace t => t.fields = Json.compact (.record (redactFields fields).entries) ∧
      match error with
      | none => t.error = ""
      | some v => t.error = Json.compact v.redacted ∧ t.error ≠ ""
  | captured e => e.fields.getD ∅ = fields ∧ e.error = error

def HeardEvent.ShownBy (h : HeardEvent) (r : LogRecord) : Prop := r.Shows h.fields h.event.error

theorem Json.compact_redacted_ne_empty {v : Value} (h : v ≠ .real "") :
    Json.compact v.redacted ≠ "" := by
  have hchars : Json.compactChars v.redacted ≠ [] := by
    cases v with
    | bool b => cases b <;> exact List.cons_ne_nil _ _
    | int n =>
      cases n with
      | ofNat n => exact Text.natChars_ne_nil n
      | negSucc n => exact List.cons_ne_nil _ _
    | real digits =>
      intro hdigits
      refine h (congrArg Value.real (String.toList_inj.1 ?_))
      exact hdigits
    | _ => exact List.cons_ne_nil _ _
  intro hempty
  refine hchars ?_
  rw [← String.toList_ofList (l := Json.compactChars v.redacted)]
  exact congrArg String.toList hempty

namespace Logger
variable (backend : LogBackend)

theorem fields_capturedEvent (l : Logger) (e : LogEvent) :
    (l.capturedEvent e).fields.getD ∅ = l.merged e := by
  rw [capturedEvent]
  cases hempty : l.base.isEmpty with
  | true =>
    have hbase : l.base = ∅ := Dict.ext_entries (List.isEmpty_iff.1 hempty)
    rw [merged, hbase, if_pos rfl, Dict.empty_merge]
  | false => rfl

theorem error_capturedEvent (l : Logger) (e : LogEvent) : (l.capturedEvent e).error = e.error := by
  rw [capturedEvent]
  split <;> rfl

/-- What a logger hands on of an event shows it with all fields that the logger inherits. -/
theorem shows_record (h : HeardEvent) (hlegible : h.event.Legible) (now : Int64) :
    List.Forall₂ HeardEvent.ShownBy ([h].filter (backend.takes ·.event.level))
      ((reached backend h.chain).record now h.event).toList := by
  have hmerged : (reached backend h.chain).merged h.event = h.fields := merged_reached ..
  rw [record, backend_reached]
  cases backend with
  | json least =>
    by_cases hlevel : least ≤ h.event.level
    · rw [List.filter_cons_of_pos (by simpa [LogBackend.takes] using hlevel)]
      simp only [if_pos hlevel]
      refine .cons ⟨_, rfl, ?_, payload_error ..⟩ .nil
      rw [payload_fields, hmerged, Value.ofDict]
    · simp [LogBackend.takes, hlevel]
  | tracing =>
    refine .cons ⟨?_, ?_⟩ .nil
    · rw [traceEvent, hmerged, Value.ofDict]
    · rw [traceEvent]
      cases hcase : h.event.error with
      | none => rfl
      | some v => exact ⟨rfl, Json.compact_redacted_ne_empty fun hv => hlegible (hv ▸ hcase)⟩
  | capture =>
    exact .cons ⟨(fields_capturedEvent ..).trans hmerged, error_capturedEvent ..⟩ .nil
  | silent => exact .nil

end Logger

/-- The loggers are those that the chains of fields lead to, and the records show what has been heard. -/
structure LogSession.Mirrors (backend : LogBackend) (s : LogSession) (f : LogFamily) : Prop where
  loggers : s.loggers = f.chains.map (Logger.reached backend)
  records : List.Forall₂ HeardEvent.ShownBy (f.heard.filter (backend.takes ·.event.level)) s.records

namespace LogSession
variable {backend : LogBackend} {s : LogSession} {f : LogFamily}

theorem mirrors_start (backend : LogBackend) : (start backend).Mirrors backend .start :=
  ⟨rfl, .nil⟩

theorem Mirrors.step (h : s.Mirrors backend f) {step : LogStep} (hstep : step.Legible) :
    (s.step step).Mirrors backend (f.step step) := by
  cases step with
  | child parent fields =>
    refine ⟨?_, h.records⟩
    simp only [LogSession.step, LogFamily.step, h.loggers, List.getElem?_map, List.map_append]
    cases f.chains[parent]? with
    | none => rfl
    | some chain => simp [Logger.reached_append]
  | call logger now call =>
    refine ⟨h.loggers, ?_⟩
    simp only [LogSession.step, LogFamily.step, h.loggers, List.getElem?_map, List.filter_append]
    refine List.rel_append h.records ?_
    cases f.chains[logger]? with
    | none => exact .nil
    | some chain => exact Logger.shows_record backend ⟨chain, call.event⟩ hstep now

theorem Mirrors.run (h : s.Mirrors backend f) {steps : List LogStep}
    (hsteps : ∀ step ∈ steps, step.Legible) : (s.run steps).Mirrors backend (f.run steps) := by
  induction steps generalizing s f with
  | nil => exact h
  | cons step rest ih =>
    obtain ⟨hstep, hrest⟩ := List.forall_mem_cons.1 hsteps
    exact ih (h.step hstep) hrest

end LogSession

/-- Whatever children are made of loggers and whatever calls are made on any of them, in any order, a
logger of each backend hands on the events of its level, one record for each in the order of the calls.
The record shows the error and the fields; of the event and the loggers on the way to the root, the
nearest one that has a field decides on it, and no other logger has a say. -/
theorem backends_show_inherited_fields {steps : List LogStep}
    (hsteps : ∀ step ∈ steps, step.Legible) :
    let heard := (LogFamily.start.run steps).heard
    (∀ backend, List.Forall₂ HeardEvent.ShownBy (heard.filter (backend.takes ·.event.level))
      ((LogSession.start backend).run steps).records) ∧
      ∀ h ∈ heard, ∀ k, h.fields.get? k =
        (h.event.fields.bind (·.get? k)).or (h.chain.reverse.findSome? (·.get? k)) := by
  intro heard
  refine ⟨fun backend => ((LogSession.mirrors_start backend).run hsteps).records, fun h _ k => ?_⟩
  rw [HeardEvent.fields, Dict.isUnion_union, List.reverse_append, List.findSome?_append]
  cases h.event.fields with
  | none => rfl
  | some fields => simp

/-- Two children of the root and a child of the first of them, which overrides a field that it inherits;
a failure of the root is told after an event of the grandchild. -/
def LogStep.cousins : List LogStep :=
  [.child 0 (Dict.ofList [("part", .text "a"), ("token", .text "t")]),
    .child 1 (Dict.ofList [("part", .text "b")]), .child 0 (Dict.ofList [("other", .int 1)]),
    .call 2 5 (.report .warn "retry" "again" (some (Dict.ofList [("try", .int 2)]))),
    .call 3 6 (.report .debug "idle" "waiting" none),
    .call 0 7 (.failure .error "sink.closed" (.unexpected .inputOutput "closed") none)]

theorem backends_show_inherited_fields_cousins :
    (∀ step ∈ LogStep.cousins, step.Legible) ∧ ∃ first second,
      ((LogSession.start (.json .info)).run LogStep.cousins).records = [first, second] ∧
        first.Shows (Dict.ofList [("part", .text "b"), ("token", .text "t"), ("try", .int 2)]) none ∧
        second.Shows ∅ (some (Failure.unexpected .inputOutput "closed").toValue.arranged) := by
  have hsteps : ∀ step ∈ LogStep.cousins, step.Legible := by
    simp only [LogStep.cousins, List.forall_mem_cons]
    exact ⟨trivial, trivial, trivial, nofun, nofun, LogEvent.legible_ofFailure _ _ _ _, nofun⟩
  have hshown := (backends_show_inherited_fields hsteps).1 (.json .info)
  generalize ((LogSession.start (.json .info)).run LogStep.cousins).records = records at hshown ⊢
  obtain ⟨first, _, hfirst, hrest, rfl⟩ := List.forall₂_cons_left_iff.1 hshown
  obtain ⟨second, _, hsecond, hnone, rfl⟩ := List.forall₂_cons_left_iff.1 hrest
  obtain rfl := List.forall₂_nil_left_iff.1 hnone
  exact ⟨hsteps, first, second, rfl, hfirst, hsecond⟩

end CallMetrics
