import CallMetrics.Proofs.Engine.Audit

/-! What a client is asked for, step by step. Each recording that takes place gives the sink one
emission and updates the registry; nothing else does either of both, but for reads, which may clear what
has expired (`ClientAct.effect`). -/

namespace CallMetrics
variable {σ : Type}

/-- What is recorded in one step. -/
inductive Recording
  | times (key : MetricKey) (millis : Int64) (nanos : Option Int64)
  | count (key : MetricKey) (delta : Int64)
  | total (key : MetricKey) (value : Int64)
  | gauge (key : MetricKey) (value : Int64)
  | sample (key : MetricKey) (value : Int64)

namespace Recording

def ofReading (key : MetricKey) (r : TimerReading) : Recording :=
  times key r.elapsedMillis (some r.cpuNanos)

/-- What the sink is told. -/
def emission : Recording → Emission
  | times key millis nanos => ⟨key, .elapsedCpu, [millis, nanos.getD 0]⟩
  | count key delta => ⟨key, .counterDelta, [delta]⟩
  | total key value => ⟨key, .counter, [value]⟩
  | gauge key value | sample key value => ⟨key, .gauge, [value]⟩

/-- What the registry keeps. -/
def update (now : Int64) : Recording → Registry → Registry
  | times key millis nanos, r =>
    let r := r.updateAverage key now millis
    match nanos with
    | some n => r.updateAverage (key.child Reserved.cpu) now n
    | none => r
  | count key delta, r => r.addCount key delta
  | total key value, r => r.setCount key value
  | gauge key value, r => r.updatePoint key now value
  | sample key value, r => r.updateAverage key now value

theorem check_emission (r : Recording) : r.emission.check = .ok () := by cases r <;> rfl

end Recording

/-- What is asked of a client in one step. Between its steps the clocks may move. -/
inductive ClientAct
  | recordTimes (key : MetricKey) (millis : Int64) (nanos : Option Int64)
  | recordReading (key : MetricKey) (r : TimerReading)
  | recordInterval (key : MetricKey) (startWall endWall : Int64)
  | recordCount (key : MetricKey) (delta : Int64)
  | setCount (key : MetricKey) (value : Int64)
  | recordGauge (key : MetricKey) (value : Int64)
  | recordSample (key : MetricKey) (value : Int64)
  | start (p : Place) (key : MetricKey)
  | finish (p : Place) (key : MetricKey)
  | finishAs (p : Place) (key target : MetricKey)
  | cancel (p : Place)
  | flush (key : MetricKey)
  | readings
  | reading (key : MetricKey)
  | average (key : MetricKey)
  | point (key : MetricKey)
  | counter (key : MetricKey)
  | move (tick : Clock → Clock)

namespace ClientAct

def run (c : Client σ) (w : World σ) : ClientAct → World σ
  | recordTimes key millis nanos => c.recordTimes key millis nanos w
  | recordReading key r => c.recordReading key r w
  | recordInterval key startWall endWall => c.recordInterval key startWall endWall w
  | recordCount key delta => c.recordCount key delta w
  | setCount key value => c.setCount key value w
  | recordGauge key value => c.recordGauge key value w
  | recordSample key value => c.recordSample key value w
  | start p key => c.start p key w
  | finish p key => (c.finish p key w).2
  | finishAs p key target => (c.finishAs p key target w).2
  | cancel p => (c.cancel p w).2
  | flush key => c.flush key w
  | readings => (c.readings w).2
  | reading key => (c.reading? key w).2
  | average key => c.onRegistry (fun r => (r.average key w.clock.wall).2) w
  | point key => c.onRegistry (fun r => (r.point key w.clock.wall).2) w
  | counter key => c.onRegistry (fun r => (r.counter key).2) w
  | move tick => w.onClock tick

/-- What is recorded. The end of a section is recorded if it gives a reading. -/
def recording? (c : Client σ) (w : World σ) : ClientAct → Option Recording
  | recordTimes key millis nanos => some (.times key millis nanos)
  | recordReading key r => some (.ofReading key r)
  | recordInterval key startWall endWall => some (.times key (span startWall endWall) none)
  | recordCount key delta => some (.count key delta)
  | setCount key value => some (.total key value)
  | recordGauge key value => some (.gauge key value)
  | recordSample key value => some (.sample key value)
  | finish p key => (c.finish p key w).1.map (.ofReading key)
  | finishAs p key target => (c.finishAs p key target w).1.map (.ofReading target)
  | _ => none

end ClientAct

/-- The emissions that an audited sink was given, each with its time. -/
def World.emitted (w : World (Audited σ)) : List (Int64 × Emission) :=
  w.store.answered.filterMap fun a => match a.call with
    | .emit e => some (a.clock.wall, e)
    | .flush _ => none

/-- The client with its sink audited. -/
def Client.audited (c : Client σ) : Client (Audited σ) := c.withSink c.sink.audited

namespace Registry
variable (r : Registry) (key other : MetricKey)

def counterOf (r : Registry) (key : MetricKey) : Counter := (r.counters.get? key.text).getD .new

def averageOf (r : Registry) (key : MetricKey) : Average := (r.averages.get? key.text).getD .new

theorem counterOf_onCounter (f : Counter → Counter) :
    (r.onCounter other f).counterOf key =
      if other = key then f (r.counterOf key) else r.counterOf key := by
  rw [counterOf, onCounter, Dict.modify, Dict.get?_insert]
  by_cases hkey : other = key
  · rw [if_pos hkey, hkey, if_pos rfl]
    rfl
  · rw [if_neg hkey, if_neg fun h => hkey (MetricKey.eq_of_text h.symm)]
    rfl

theorem averageOf_onAverage (f : Average → Average) :
    (r.onAverage other f).averageOf key =
      if other = key then f (r.averageOf key) else r.averageOf key := by
  rw [averageOf, onAverage, Dict.modify, Dict.get?_insert]
  by_cases hkey : other = key
  · rw [if_pos hkey, hkey, if_pos rfl]
    rfl
  · rw [if_neg hkey, if_neg fun h => hkey (MetricKey.eq_of_text h.symm)]
    rfl

end Registry

/-- What reads leave as it is: counters, and averages up to being refreshed. -/
structure Registry.ReadAt (now : Int64) (r r' : Registry) : Prop where
  window : r'.window = r.window
  counters : ∀ key, r'.counterOf key = r.counterOf key
  averages : ∀ key, r'.averageOf key = r.averageOf key ∨
    r'.averageOf key = (r.averageOf key).refresh r.window now

/-- What comes of an act: a recording is emitted and updates the registry, all else is at most a read. -/
inductive Client.Effect (c : Client (Audited σ)) (w w' : World (Audited σ)) : Option Recording → Prop
  | recorded (r : Recording) (hemitted : w'.emitted = w.emitted ++ [(w.clock.wall, r.emission)])
      (hregistry : c.registry w' = r.update w.clock.wall (c.registry w)) : Effect c w w' (some r)
  | unrecorded (hemitted : w'.emitted = w.emitted)
      (hregistry : (c.registry w).ReadAt w.clock.wall (c.registry w')) : Effect c w w' none

namespace Registry

theorem ReadAt.refl (now : Int64) (r : Registry) : r.ReadAt now r :=
  ⟨rfl, fun _ => rfl, fun _ => .inl rfl⟩

theorem readAt_readings (now : Int64) (r : Registry) : r.ReadAt now (r.readings now).2 where
  window := rfl
  counters _ := rfl
  averages key := by
    right
    show ((r.averages.map fun _ => Average.refresh r.window now).get? key.text).getD .new = _
    rw [Dict.get?_map, Average.getD_map_refresh, averageOf]

theorem readAt_average (key : MetricKey) (now : Int64) (r : Registry) :
    r.ReadAt now (r.average key now).2 where
  window := rfl
  counters _ := rfl
  averages other := by
    have hread : (r.average key now).2.averageOf other = if key = other then
        (r.averageOf other).refresh r.window now else r.averageOf other :=
      r.averageOf_onAverage other key _
    rw [hread]
    by_cases hkey : key = other
    · exact .inr (if_pos hkey)
    · exact .inl (if_neg hkey)

theorem readAt_point (key : MetricKey) (now : Int64) (r : Registry) :
    r.ReadAt now (r.point key now).2 := ⟨rfl, fun _ => rfl, fun _ => .inl rfl⟩

theorem readAt_counter (key : MetricKey) (now : Int64) (r : Registry) :
    r.ReadAt now (r.counter key).2 where
  window := rfl
  counters other := by
    have hread : (r.counter key).2.counterOf other =
        if key = other then r.counterOf other else r.counterOf other :=
      r.counterOf_onCounter other key id
    rw [hread, ite_self]
  averages _ := .inl rfl

theorem readAt_reading? (key : MetricKey) (now : Int64) (r : Registry) :
    r.ReadAt now (r.reading? key now).2 := by
  unfold reading?
  split
  · exact readAt_average key now r
  · split
    · exact readAt_point key now r
    · exact .refl now r

end Registry

theorem World.emitted_congr {w w' : World (Audited σ)}
    (h : w'.store.answered = w.store.answered) : w'.emitted = w.emitted := by
  rw [emitted, h, emitted]

namespace Client
variable (c : Client σ) (w : World (Audited σ))

/-- An audited sink keeps each call that it is given. -/
theorem answered_offer (call : SinkCall) :
    ∃ answer, (c.audited.offer call w).store.answered =
      w.store.answered ++ [⟨call, w.clock, answer⟩] := by
  have hstage : (c.audited.offer call w).toStage = (c.audited.sink.answer w.toStage call).2 :=
    c.audited.settle_toStage _ _ _ _
  have haudit : c.audited.sink.answer w.toStage call = c.sink.audit call w.toStage :=
    c.sink.answer_audited call w.toStage
  have hstore := congrArg (fun stage : Stage (Audited σ) => stage.store.answered)
    (hstage.trans (congrArg Prod.snd haudit))
  exact ⟨_, hstore⟩

theorem emitted_emit (key : MetricKey) (kind : MetricKind) (values : List Int64) :
    (c.audited.emit key kind values w).emitted =
      w.emitted ++ [(w.clock.wall, ⟨key, kind, values⟩)] := by
  obtain ⟨answer, hanswered⟩ := c.answered_offer w (.emit ⟨key, kind, values⟩)
  rw [emit_eq_offer, World.emitted, hanswered, List.filterMap_append]
  rfl

theorem emitted_flush (key : MetricKey) : (c.audited.flush key w).emitted = w.emitted := by
  obtain ⟨answer, hanswered⟩ := c.answered_offer w (.flush key)
  rw [flush_eq_offer, World.emitted, hanswered, List.filterMap_append]
  exact List.append_nil _

theorem emitted_logged (logger : Logger) (e : LogEvent) : (w.logged logger e).emitted = w.emitted :=
  World.emitted_congr (congrArg (fun stage => stage.store.answered) (World.logged_toStage w logger e))

/-- What is done to a world that differs in neither sink, clocks nor registry. -/
theorem Effect.of_same {c : Client (Audited σ)} {v w w' : World (Audited σ)} {r : Option Recording}
    (h : c.Effect v w' r) (hstage : v.toStage = w.toStage)
    (hregistry : c.registry v = c.registry w) : c.Effect w w' r := by
  have hemitted : v.emitted = w.emitted :=
    World.emitted_congr (congrArg (fun stage => stage.store.answered) hstage)
  have hwall : v.clock.wall = w.clock.wall := congrArg (fun stage => stage.clock.wall) hstage
  rcases h with ⟨r, hgrown, hupdated⟩ | ⟨hkept, hread⟩
  · rw [hemitted, hwall] at hgrown
    rw [hwall, hregistry] at hupdated
    exact .recorded r hgrown hupdated
  · rw [hemitted] at hkept
    rw [hwall, hregistry] at hread
    exact .unrecorded hkept hread

/-- Carries out a recording: the registry first, then the sink. -/
def carryOut (c : Client σ) (r : Recording) (w : World σ) : World σ :=
  c.emit r.emission.key r.emission.kind r.emission.values (c.onRegistry (r.update w.clock.wall) w)

theorem effect_carryOut (r : Recording) :
    c.audited.Effect w (c.audited.carryOut r w) (some r) := by
  refine .recorded r ?_ ?_
  · rw [carryOut, emitted_emit]
    rfl
  · rw [carryOut, registry_emit, registry_onRegistry]

theorem effect_setRegistry {r : Registry}
    (hread : (c.audited.registry w).ReadAt w.clock.wall r) :
    c.audited.Effect w (c.audited.setRegistry r w) none := by
  refine .unrecorded rfl ?_
  have hregistry : c.audited.registry (c.audited.setRegistry r w) = r :=
    c.audited.registry_onRegistry (fun _ => r) w
  rw [hregistry]
  exact hread

/-- The end of a section leaves the registry and the sink to its recording. -/
theorem effect_finishAs (p : Place) (key target : MetricKey) :
    c.audited.Effect w (c.audited.finishAs p key target w).2
      ((c.audited.finishAs p key target w).1.map (.ofReading target)) := by
  have hstage : (c.audited.timer.finish p key.text w).2.toStage = w.toStage := rfl
  have hregistry : c.audited.registry (c.audited.timer.finish p key.text w).2 =
      c.audited.registry w := rfl
  unfold finishAs
  split
  next r v hfinish =>
    rw [hfinish] at hstage hregistry
    exact (c.effect_carryOut v (.ofReading target r)).of_same hstage hregistry
  next m v hfinish =>
    rw [hfinish] at hstage hregistry
    refine Effect.of_same (.unrecorded (emitted_logged v _ _) ?_) hstage hregistry
    have hlogged : c.audited.registry (v.logged c.audited.logger
        (.ofFailure .warn "timer.mismatch" m.toFailure none)) = c.audited.registry v :=
      c.audited.registry_congr (World.logged_registries _ _ _)
    exact hlogged ▸ .refl _ _

end Client

/-- What each act does. -/
theorem ClientAct.effect (c : Client σ) (w : World (Audited σ)) (act : ClientAct) :
    c.audited.Effect w (act.run c.audited w) (act.recording? c.audited w) := by
  have hunchanged {w' : World (Audited σ)} (hstore : w'.store = w.store)
      (hregistries : w'.registries = w.registries) : c.audited.Effect w w' none := by
    refine .unrecorded (World.emitted_congr (congrArg Audited.answered hstore)) ?_
    rw [c.audited.registry_congr hregistries]
    exact .refl _ _
  cases act with
  | recordTimes key millis nanos => exact c.effect_carryOut w (.times key millis nanos)
  | recordReading key r => exact c.effect_carryOut w (.ofReading key r)
  | recordInterval key startWall endWall =>
    exact c.effect_carryOut w (.times key (span startWall endWall) none)
  | recordCount key delta => exact c.effect_carryOut w (.count key delta)
  | setCount key value => exact c.effect_carryOut w (.total key value)
  | recordGauge key value => exact c.effect_carryOut w (.gauge key value)
  | recordSample key value => exact c.effect_carryOut w (.sample key value)
  | finish p key => exact c.effect_finishAs w p key key
  | finishAs p key target => exact c.effect_finishAs w p key target
  | start p key | cancel p | move tick => exact hunchanged rfl rfl
  | flush key =>
    refine .unrecorded (c.emitted_flush w key) ?_
    rw [run, Client.registry_flush]
    exact .refl _ _
  | readings => exact c.effect_setRegistry w (Registry.readAt_readings _ _)
  | reading key => exact c.effect_setRegistry w (Registry.readAt_reading? key _ _)
  | average key => exact c.effect_setRegistry w (Registry.readAt_average key _ _)
  | point key => exact c.effect_setRegistry w (Registry.readAt_point key _ _)
  | counter key => exact c.effect_setRegistry w (Registry.readAt_counter key _ _)

end CallMetrics
