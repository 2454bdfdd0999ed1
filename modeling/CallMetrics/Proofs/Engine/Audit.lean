import CallMetrics.Proofs.Engine.Likeness

/-! Sinks that are audited: every call is kept with its answer, which changes nothing else. Programs
with two audited sinks stay alike as long as no sink moves a clock: the sinks are given the same calls
at the same times, and each log has one warning for each call that its sink refused and is otherwise
the same. -/

namespace CallMetrics
variable {ρ σ τ : Type}

/-- A call that a sink was given, when it was given it, and what the sink answered. -/
structure AnsweredCall where
  call : SinkCall
  clock : Clock
  answer : Except SinkError Unit

/-- The state of a sink with the calls that it has answered, the earliest first. -/
structure Audited (σ : Type) where
  answered : List AnsweredCall
  inner : σ

namespace Sink

def audit (s : Sink σ) (call : SinkCall) (stage : Stage (Audited σ)) :
    Except SinkError Unit × Stage (Audited σ) :=
  let (answer, inner) := s.answer ⟨stage.clock, stage.store.inner⟩ call
  (answer, ⟨inner.clock, ⟨stage.store.answered ++ [⟨call, stage.clock, answer⟩], inner.store⟩⟩)

def audited (s : Sink σ) : Sink (Audited σ) where
  emit e := s.audit (.emit e)
  flush key := s.audit (.flush key)

theorem answer_audited (s : Sink σ) (call : SinkCall) (stage : Stage (Audited σ)) :
    s.audited.answer stage call = s.audit call stage := by cases call <;> rfl

end Sink

/-- The same world for an audited sink that has not been called. -/
def World.audited (w : World σ) : World (Audited σ) := w.under ⟨[], w.store⟩ w.log

/-- An event with the logger that it goes through and its time stamp. -/
structure LoggedEvent where
  logger : Logger
  stamp : Int64
  event : LogEvent

def LoggedEvent.record (e : LoggedEvent) : Option LogRecord := e.logger.record e.stamp e.event

namespace AnsweredCall

def asked (a : AnsweredCall) : SinkCall × Clock := (a.call, a.clock)

/-- The warning that a refused call is to be reported by. -/
def warning? (logger : Logger) (a : AnsweredCall) : Option LoggedEvent :=
  match a.answer with
  | .ok () => none
  | .error e => some ⟨logger, a.clock.stamp,
      .ofFailure .warn a.call.failedEvent e.toFailure (some (keyField a.call.key))⟩

theorem ofSink_of_warning? {logger : Logger} {a : AnsweredCall} {e : LoggedEvent}
    (h : a.warning? logger = some e) : e.event.OfSink := by
  unfold warning? at h
  split at h
  · cases h
  · obtain rfl := Option.some.inj h
    cases a with
    | mk call clock answer =>
      cases call with
      | emit e => exact .inl rfl
      | flush key => exact .inr rfl

end AnsweredCall

/-- A log holds, behind what it held before, the records of some events: the ones listed, and between
them a warning for each call that the sink refused. -/
def Explains (logger : Logger) (before log : Array LogRecord) (answered : List AnsweredCall)
    (events : List LoggedEvent) : Prop :=
  ∃ all : List LoggedEvent,
    log.toList = before.toList ++ all.filterMap LoggedEvent.record ∧
      all.filter (·.event.OfSink) = answered.filterMap (AnsweredCall.warning? logger) ∧
      all.filter (fun e => !decide e.event.OfSink) = events

namespace Explains
variable {logger : Logger} {before log : Array LogRecord} {answered : List AnsweredCall}
  {events : List LoggedEvent}

theorem none (logger : Logger) (log : Array LogRecord) : Explains logger log log [] [] :=
  ⟨[], by simp, rfl, rfl⟩

/-- An event of its own is one more of those that are listed. -/
theorem logged (h : Explains logger before log answered events) (l : Logger) (stamp : Int64)
    {e : LogEvent} (he : ¬e.OfSink) :
    Explains logger before (log ++ (l.record stamp e).toArray) answered
      (events ++ [⟨l, stamp, e⟩]) := by
  obtain ⟨all, hlog, hrefused, hown⟩ := h
  refine ⟨all ++ [⟨l, stamp, e⟩], ?_, ?_, ?_⟩
  · cases hrecord : l.record stamp e <;> simp [hlog, LoggedEvent.record, hrecord]
  · simp [hrefused, he]
  · simp [hown, he]

/-- One more call is explained by its warning, if there is one. -/
theorem asked (h : Explains logger before log answered events) (a : AnsweredCall) :
    Explains logger before (log ++ ((a.warning? logger).bind LoggedEvent.record).toArray)
      (answered ++ [a]) events := by
  obtain ⟨all, hlog, hrefused, hown⟩ := h
  refine ⟨all ++ (a.warning? logger).toList, ?_, ?_, ?_⟩
  · cases hwarning : a.warning? logger with
    | none => simp [hlog]
    | some e => cases hrecord : e.record <;> simp [hlog, hrecord]
  · cases hwarning : a.warning? logger with
    | none => simp [hrefused, hwarning]
    | some e => simp [hrefused, hwarning, AnsweredCall.ofSink_of_warning? hwarning]
  · cases hwarning : a.warning? logger with
    | none => simp [hown]
    | some e => simp [hown, AnsweredCall.ofSink_of_warning? hwarning]

end Explains

/-- Two worlds that are equal but for what their sinks answer. -/
structure World.Alike (logger : Logger) (before : Array LogRecord) (w : World (Audited σ))
    (w' : World (Audited τ)) : Prop where
  rest : ∃ store log, w' = w.under store log
  asked : w'.store.answered.map AnsweredCall.asked = w.store.answered.map AnsweredCall.asked
  logs : ∃ events, Explains logger before w.log w.store.answered events ∧
    Explains logger before w'.log w'.store.answered events

/-- A sink that moves no clock changes, when it is called, its own state and the log, which gets the
warning if there is one. -/
theorem Client.offer_audited (c : Client ρ) {s : Sink σ} (hstill : s.Still) (call : SinkCall)
    (w : World (Audited σ)) :
    ∃ answer inner, (c.withSink s.audited).offer call w =
      w.under ⟨w.store.answered ++ [⟨call, w.clock, answer⟩], inner⟩
        (w.log ++ ((AnsweredCall.warning? c.logger ⟨call, w.clock, answer⟩).bind
          LoggedEvent.record).toArray) := by
  have hclock : (s.answer ⟨w.clock, w.store.inner⟩ call).2.clock = w.clock :=
    hstill ⟨w.clock, w.store.inner⟩ call
  have haudit : (c.withSink s.audited).sink.answer w.toStage call = s.audit call w.toStage :=
    s.answer_audited call w.toStage
  rw [offer, haudit, Sink.audit]
  generalize s.answer ⟨w.clock, w.store.inner⟩ call = given at hclock
  obtain ⟨answer, clock, inner⟩ := given
  obtain rfl : clock = w.clock := hclock
  refine ⟨answer, inner, ?_⟩
  -- With the clock as it was, the warning gets the time stamp of the call.
  cases answer with
  | ok u => simp [settle, World.under, AnsweredCall.warning?]
  | error e => exact World.logged_eq_under _ _ _

namespace Likeness

/-- What two audited sinks answer. -/
def answers (c : Client ρ) {s : Sink σ} {s' : Sink τ} (hs : s.Still) (hs' : s'.Still)
    (before : Array LogRecord) : Likeness c s.audited s'.audited where
  Like := World.Alike c.logger before
  rest h := h.rest
  of_eq {w v w' v'} h hstore hlog hrest := by
    subst hrest
    refine ⟨⟨_, _, rfl⟩, ?_, ?_⟩
    · rw [hstore]
      exact h.asked
    · rw [hstore, hlog]
      exact h.logs
  logged {w w'} l e h he := by
    obtain ⟨events, hw, hw'⟩ := h.logs
    obtain ⟨store, log, rfl⟩ := h.rest
    rw [World.logged_eq_under, World.logged_eq_under]
    exact ⟨⟨_, _, rfl⟩, h.asked, _, hw.logged l w.clock.stamp he, hw'.logged l w.clock.stamp he⟩
  offer {w w'} call h := by
    obtain ⟨events, hw, hw'⟩ := h.logs
    have hasked := h.asked
    obtain ⟨store, log, rfl⟩ := h.rest
    obtain ⟨answer, inner, hoffer⟩ := c.offer_audited hs call w
    obtain ⟨answer', inner', hoffer'⟩ := c.offer_audited hs' call (w.under store log)
    rw [hoffer, hoffer']
    refine ⟨⟨_, _, rfl⟩, ?_, events, hw.asked _, hw'.asked _⟩
    simp only [World.under] at hasked ⊢
    simp [hasked, AnsweredCall.asked]

/-- An audited sink beside the sink itself: all is the same but for what is kept of the calls. -/
def unaudited (c : Client ρ) (s : Sink σ) : Likeness c s.audited s where
  Like w w' := w' = w.under w.store.inner w.log
  rest h := ⟨_, _, h⟩
  of_eq h hstore hlog hrest := by
    subst h
    rw [hrest, hstore, hlog]
    rfl
  logged l e h _ := by
    subst h
    rw [World.logged_eq_under, World.logged_eq_under]
    rfl
  offer {w w'} call h := by
    subst h
    have haudit : (c.withSink s.audited).sink.answer w.toStage call = s.audit call w.toStage :=
      s.answer_audited call w.toStage
    have hplain : (c.withSink s).sink.answer (w.under w.store.inner w.log).toStage call =
        s.answer ⟨w.clock, w.store.inner⟩ call := rfl
    rw [Client.offer, Client.offer, haudit, hplain, Sink.audit]
    generalize s.answer ⟨w.clock, w.store.inner⟩ call = given
    obtain ⟨answer, stage⟩ := given
    cases answer with
    | ok u => rfl
    | error e =>
      simp only [Client.settle, Client.warn, World.logged_eq_under]
      rfl

end Likeness
end CallMetrics
