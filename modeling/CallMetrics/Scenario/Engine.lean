import CallMetrics.Scenario.Step

/-! The engine that scenarios run on, and what the actions without a body do. -/

namespace CallMetrics.Scenario

structure Engine where
  clients : Clients Journal
  dispatcher : Dispatcher Journal
  logger : Logger
  /-- How many timers there are that belong to no client. -/
  timers : Nat

namespace Engine

/-- The engine of a configuration; calls are recorded through the default client. -/
def ofConfig (config : ValidConfig) (identity : Identity) (logger : Logger)
    (sinkFor : String → Sink Journal) (timers : Nat) : Engine :=
  let clients := Clients.ofConfig config logger sinkFor
  ⟨clients, .ofConfig config clients.first identity logger, logger, timers⟩

def timer? (e : Engine) (index : Nat) : Option Timer :=
  if index < e.timers then some ⟨e.clients.size + index⟩ else none

def client? (e : Engine) : Option String → Option (Client Journal)
  | some name => e.clients.get? name
  | none => some e.clients.first

def sink? (e : Engine) (client : Option String) : Option (Sink Journal) :=
  (e.clients.get? (client.getD Clients.defaultName)).map (·.sink)

end Engine

/-- Goes on with a text that was read, or answers why it could not be. -/
def afterReading {α : Type} (read : Except KeyError α) (w : World Journal)
    (next : α → Answer × World Journal) : Answer × World Journal :=
  match read with
  | .ok a => next a
  | .error e => (.failure e.toFailure, w)

def withKey (key : String) (w : World Journal) (next : MetricKey → Answer × World Journal) :
    Answer × World Journal :=
  afterReading (MetricKey.read key) w next

def ofSink (answer : Except SinkError Unit × Stage Journal) (w : World Journal) :
    Answer × World Journal :=
  (match answer.1 with
    | .ok () => .done
    | .error e => .failure e.toFailure, { w with toStage := answer.2 })

def ClientAction.run (c : Client Journal) (p : Place) (w : World Journal) :
    ClientAction → Answer × World Journal
  | start key => withKey key w fun k => (.nothing, c.start p k w)
  | finish key => withKey key w fun k => ofReading (c.finish p k w)
  | finishAs key target => withKey key w fun k => withKey target w fun t =>
      ofReading (c.finishAs p k t w)
  | cancel => let (b, w) := c.cancel p w; (.flag b, w)
  | depth => (.number (c.timer.depth p w), w)
  | recordInterval key s e => recording key fun k => c.recordInterval k s e w
  | recordTimes key millis nanos => recording key fun k => c.recordTimes k millis nanos w
  | recordReading key r => recording key fun k => c.recordReading k r w
  | recordCount key delta => recording key fun k => c.recordCount k delta w
  | setCount key value => recording key fun k => c.setCount k value w
  | recordGauge key value => recording key fun k => c.recordGauge k value w
  | recordSample key value => recording key fun k => c.recordSample k value w
  | flush key => recording key fun k => c.flush k w
  | readings => let (rows, w) := c.readings w; (.rows rows, w)
  | .reading key => withKey key w fun k =>
      let (row, w) := c.reading? k w
      (match row with
        | some r => .row r
        | none => .nothing, w)
  | size => (.number (c.registry w).size, w)
  | snapshot =>
      let (rows, w) := c.readings w
      let (result, history) := w.history.push w.clock.wall rows
      (match result with
        | .ok k => .key k
        | .error e => .failure e.toFailure, { w with history })
where
  recording (key : String) (record : MetricKey → World Journal) : Answer × World Journal :=
    withKey key w fun k => (.nothing, record k)
  ofReading : Option TimerReading × World Journal → Answer × World Journal
    | (some r, w) => (.reading r, w)
    | (none, w) => (.nothing, w)

/-- What an action answers; it breaks off if what it names is not there. -/
def Action.run (e : Engine) (p : Place) (w : World Journal) :
    Action → Option (Answer × World Journal)
  | advance millis => onClock (·.advance millis)
  | advancePrecise nanos => onClock (·.advancePrecise nanos)
  | advanceCpu nanos => onClock (·.advanceCpu nanos)
  | setWall millis => onClock (·.setWall millis)
  | timerStart timer name => (e.timer? timer).map fun t => (.nothing, t.start p name w)
  | timerFinish timer name => (e.timer? timer).map fun t =>
    match t.finish p name w with
    | (.ok r, w) => (.timed r, w)
    | (.error m, w) => (.failure m.toFailure, w)
  | timerCancel timer => (e.timer? timer).map fun t => let (b, w) := t.cancel p w; (.flag b, w)
  | timerDepth timer => (e.timer? timer).map fun t => (.number (t.depth p w), w)
  | clocks => answer (.clocks w.clock.cpu w.clock.wall)
  | inScope => answer (.flag p.scope.isSome)
  | onClient client a => (e.client? client).map fun c => a.run c p w
  | clients => answer (.clients e.clients.names e.clients.first.name)
  | hasClient name => answer
    (match e.clients.get? name with
      | some c => .text c.name
      | none => .nothing)
  | sinkEmit client key kind values => onSink client key fun s k => s.emit ⟨k, kind, values⟩
  | sinkFlush client key => onSink client key fun s k => s.flush k
  | user => answer
    (match e.dispatcher.lookupUser p w with
      | .ok u => .text u.text
      | .error err => .failure err.toFailure)
  | failure level event f => some (.nothing, w.logged e.logger (.ofFailure level event f))
  | inFlight type => some (afterReading (CallType.read type) w fun t =>
      (.number (w.dispatch.inFlight t).count.toNat, w))
  | cacheStats => answer (.cache w.dispatch.cache.stats)
  | cacheSize left => answer (.number (w.dispatch.cache.innerSize left))
  | cacheCap => answer (.number w.dispatch.cache.cap)
  | history => answer (.history w.history.rows)
where
  answer (a : Answer) : Option (Answer × World Journal) := some (a, w)
  onClock (f : Clock → Clock) : Option (Answer × World Journal) := some (.nothing, w.onClock f)
  /-- The key is read before the sink is looked up. -/
  onSink (client : Option String) (key : String)
      (use : Sink Journal → MetricKey → Stage Journal → Except SinkError Unit × Stage Journal) :
      Option (Answer × World Journal) :=
    match MetricKey.read key with
    | .error err => answer (.failure err.toFailure)
    | .ok k => (e.sink? client).map fun s => ofSink (use s k w.toStage) w

end CallMetrics.Scenario
