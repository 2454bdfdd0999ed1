import CallMetrics.Engine.Client
import CallMetrics.Sink.Calls

/-! What recording does to the world. A client gives its sink one call for each thing that it
records or flushes, updates its own registry, and logs what the sink refuses; sections, sites, users
and the number of calls stay as they are. -/

namespace CallMetrics
variable {σ : Type}

/-- The second log is the first one and then the records of events that satisfy `P`. -/
def LogGrows (P : LogEvent → Prop) (log log' : Array LogRecord) : Prop :=
  ∃ events : List (Logger × Int64 × LogEvent), (∀ e ∈ events, P e.2.2) ∧
    log'.toList = log.toList ++ events.filterMap fun e => e.1.record e.2.1 e.2.2

namespace LogGrows
variable {P Q : LogEvent → Prop} {a b c : Array LogRecord}

theorem refl (P : LogEvent → Prop) (log : Array LogRecord) : LogGrows P log log :=
  ⟨[], by simp, by simp⟩

theorem trans (h : LogGrows P a b) (h' : LogGrows P b c) : LogGrows P a c := by
  obtain ⟨es, hes, hb⟩ := h
  obtain ⟨fs, hfs, hc⟩ := h'
  refine ⟨es ++ fs, ?_, ?_⟩
  · intro e he
    rcases List.mem_append.1 he with he | he
    · exact hes e he
    · exact hfs e he
  · rw [hc, hb, List.filterMap_append, List.append_assoc]

theorem mono (h : LogGrows P a b) (hPQ : ∀ e, P e → Q e) : LogGrows Q a b := by
  obtain ⟨es, hes, hb⟩ := h
  exact ⟨es, fun e he => hPQ _ (hes e he), hb⟩

theorem logged (w : World σ) (logger : Logger) {e : LogEvent} (he : P e) :
    LogGrows P w.log (w.logged logger e).log := by
  refine ⟨[(logger, w.clock.stamp, e)], by simpa using he, ?_⟩
  unfold World.logged
  cases hr : logger.record w.clock.stamp e <;> simp [hr]

end LogGrows

/-- The events by which a client reports what its sink refused. -/
def LogEvent.OfSink (e : LogEvent) : Prop :=
  e.event = "sink.emit_failed" ∨ e.event = "sink.flush_failed"

instance : DecidablePred LogEvent.OfSink := fun e =>
  inferInstanceAs (Decidable (e.event = "sink.emit_failed" ∨ e.event = "sink.flush_failed"))

/-- What recording leaves as it is; the events that it logs satisfy `P`. -/
structure World.Recorded (P : LogEvent → Prop) (w w' : World σ) : Prop where
  timers : w'.timers = w.timers
  dispatch : w'.dispatch = w.dispatch
  users : w'.users = w.users
  calls : w'.calls = w.calls
  log : LogGrows P w.log w'.log

namespace World
variable {P Q : LogEvent → Prop}

theorem Recorded.refl (w : World σ) : w.Recorded P w := ⟨rfl, rfl, rfl, rfl, .refl _ _⟩

theorem Recorded.trans {a b c : World σ} (h : a.Recorded P b) (h' : b.Recorded P c) :
    a.Recorded P c :=
  ⟨h'.timers.trans h.timers, h'.dispatch.trans h.dispatch, h'.users.trans h.users,
    h'.calls.trans h.calls, h.log.trans h'.log⟩

theorem Recorded.mono {w w' : World σ} (h : w.Recorded P w') (hPQ : ∀ e, P e → Q e) :
    w.Recorded Q w' := ⟨h.timers, h.dispatch, h.users, h.calls, h.log.mono hPQ⟩

@[simp] theorem logged_toStage (w : World σ) (l : Logger) (e : LogEvent) :
    (w.logged l e).toStage = w.toStage := by unfold logged; split <;> rfl

@[simp] theorem logged_registries (w : World σ) (l : Logger) (e : LogEvent) :
    (w.logged l e).registries = w.registries := by unfold logged; split <;> rfl

@[simp] theorem logged_timers (w : World σ) (l : Logger) (e : LogEvent) :
    (w.logged l e).timers = w.timers := by unfold logged; split <;> rfl

@[simp] theorem logged_dispatch (w : World σ) (l : Logger) (e : LogEvent) :
    (w.logged l e).dispatch = w.dispatch := by unfold logged; split <;> rfl

@[simp] theorem logged_users (w : World σ) (l : Logger) (e : LogEvent) :
    (w.logged l e).users = w.users := by unfold logged; split <;> rfl

@[simp] theorem logged_calls (w : World σ) (l : Logger) (e : LogEvent) :
    (w.logged l e).calls = w.calls := by unfold logged; split <;> rfl

theorem recorded_logged (w : World σ) (l : Logger) {e : LogEvent} (he : P e) :
    w.Recorded P (w.logged l e) :=
  ⟨logged_timers w l e, logged_dispatch w l e, logged_users w l e, logged_calls w l e,
    .logged w l he⟩

end World

namespace Client
variable (c : Client σ)

theorem recorded_onRegistry (f : Registry → Registry) (w : World σ) :
    w.Recorded LogEvent.OfSink (c.onRegistry f w) := ⟨rfl, rfl, rfl, rfl, .refl _ _⟩

theorem registry_congr {w w' : World σ} (h : w'.registries = w.registries) :
    c.registry w' = c.registry w := by
  rw [registry, h]
  rfl

@[simp] theorem registry_onRegistry (f : Registry → Registry) (w : World σ) :
    c.registry (c.onRegistry f w) = f (c.registry w) := by
  simp [onRegistry, setRegistry, registry]

section Settle
variable (event : String) (key : MetricKey) (answer : Except SinkError Unit × Stage σ) (w : World σ)

theorem recorded_settle (h : event = "sink.emit_failed" ∨ event = "sink.flush_failed") :
    w.Recorded LogEvent.OfSink (c.settle event key answer w) := by
  have hstage : w.Recorded LogEvent.OfSink { w with toStage := answer.2 } :=
    ⟨rfl, rfl, rfl, rfl, .refl _ _⟩
  unfold settle
  cases answer.1 with
  | ok u => exact hstage
  | error e => exact hstage.trans (World.recorded_logged _ _ h)

@[simp] theorem settle_toStage : (c.settle event key answer w).toStage = answer.2 := by
  unfold settle
  cases answer.1 with
  | ok u => rfl
  | error e => exact World.logged_toStage _ _ _

@[simp] theorem registry_settle : c.registry (c.settle event key answer w) = c.registry w := by
  unfold settle
  cases answer.1 with
  | ok u => rfl
  | error e => simp [registry, warn]

end Settle

section Emit
variable (key : MetricKey) (kind : MetricKind) (values : List Int64) (w : World σ)

theorem recorded_emit :
    w.Recorded LogEvent.OfSink (c.emit key kind values w) :=
  c.recorded_settle _ _ _ _ (.inl rfl)

@[simp] theorem emit_toStage :
    (c.emit key kind values w).toStage = c.sink.take w.toStage (.emit ⟨key, kind, values⟩) :=
  c.settle_toStage _ _ _ _

@[simp] theorem registry_emit : c.registry (c.emit key kind values w) = c.registry w :=
  c.registry_settle _ _ _ _

theorem recorded_flush :
    w.Recorded LogEvent.OfSink (c.flush key w) := c.recorded_settle _ _ _ _ (.inr rfl)

@[simp] theorem flush_toStage :
    (c.flush key w).toStage = c.sink.take w.toStage (.flush key) := c.settle_toStage _ _ _ _

@[simp] theorem registry_flush : c.registry (c.flush key w) = c.registry w :=
  c.registry_settle _ _ _ _

end Emit

section Record
variable (key : MetricKey) (w : World σ)

theorem recorded_recordReading (r : TimerReading) :
    w.Recorded LogEvent.OfSink (c.recordReading key r w) :=
  (c.recorded_onRegistry _ w).trans (c.recorded_emit _ _ _ _)

@[simp] theorem recordReading_toStage (r : TimerReading) :
    (c.recordReading key r w).toStage =
      c.sink.take w.toStage (.elapsed key r.elapsedMillis r.cpuNanos) := c.emit_toStage _ _ _ _

theorem recorded_recordCount (delta : Int64) :
    w.Recorded LogEvent.OfSink (c.recordCount key delta w) :=
  (c.recorded_onRegistry _ w).trans (c.recorded_emit _ _ _ _)

@[simp] theorem recordCount_toStage (delta : Int64) :
    (c.recordCount key delta w).toStage = c.sink.take w.toStage (.count key delta) :=
  c.emit_toStage _ _ _ _

theorem recorded_recordGauge (value : Int64) :
    w.Recorded LogEvent.OfSink (c.recordGauge key value w) :=
  (c.recorded_onRegistry _ w).trans (c.recorded_emit _ _ _ _)

@[simp] theorem recordGauge_toStage (value : Int64) :
    (c.recordGauge key value w).toStage = c.sink.take w.toStage (.gauge key value) :=
  c.emit_toStage _ _ _ _

theorem recorded_recordSample (value : Int64) :
    w.Recorded LogEvent.OfSink (c.recordSample key value w) :=
  (c.recorded_onRegistry _ w).trans (c.recorded_emit _ _ _ _)

@[simp] theorem recordSample_toStage (value : Int64) :
    (c.recordSample key value w).toStage = c.sink.take w.toStage (.gauge key value) :=
  c.emit_toStage _ _ _ _

@[simp] theorem counters_recordReading (r : TimerReading) :
    (c.registry (c.recordReading key r w)).counters = (c.registry w).counters := by
  rw [recordReading, recordTimes, registry_emit, registry_onRegistry]
  rfl

@[simp] theorem registry_recordCount (delta : Int64) :
    c.registry (c.recordCount key delta w) = (c.registry w).addCount key delta := by
  rw [recordCount, registry_emit, registry_onRegistry]

@[simp] theorem counters_recordGauge (value : Int64) :
    (c.registry (c.recordGauge key value w)).counters = (c.registry w).counters := by
  rw [recordGauge, registry_emit, registry_onRegistry]
  rfl

@[simp] theorem counters_recordSample (value : Int64) :
    (c.registry (c.recordSample key value w)).counters = (c.registry w).counters := by
  rw [recordSample, registry_emit, registry_onRegistry]
  rfl

end Record

def countOf (key : MetricKey) (w : World σ) : Int64 :=
  (((c.registry w).counters.get? key.text).getD .new).value

@[simp] theorem counters_finish (p : Place) (key : MetricKey) (w : World σ) :
    (c.registry (c.finish p key w).2).counters = (c.registry w).counters := by
  have htimer : (c.timer.finish p key.text w).2.registries = w.registries := rfl
  unfold finish finishAs
  split
  · rename_i r w' h
    rw [h] at htimer
    rw [counters_recordReading, registry, htimer]
    rfl
  · rename_i m w' h
    rw [h] at htimer
    simp only at htimer
    simp only [warn, registry, World.logged_registries, htimer]

end Client
end CallMetrics
