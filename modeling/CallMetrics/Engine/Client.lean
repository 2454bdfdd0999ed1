import CallMetrics.Config.Valid
import CallMetrics.Engine.Timer

/-! Clients. A client has a timer, a registry and a sink; what is recorded goes to the registry and
to the sink. When the sink fails, or a section does not end as it should, the client logs it and
goes on. -/

namespace CallMetrics

structure Client (σ : Type) where
  name : String
  timer : Timer
  window : Window
  sink : Sink σ
  logger : Logger

def keyField (key : MetricKey) : Fields := Dict.ofList [("metricKey", .text key.text)]

namespace Client
variable {σ : Type}

def new (name : String) (timer : Timer) (window : Window) (sink : Sink σ) (root : Logger) :
    Client σ :=
  ⟨name, timer, window, sink, root.child (Dict.ofList [("client", .text name)])⟩

def registry (c : Client σ) (w : World σ) : Registry :=
  (w.registries.get? c.name).getD (.empty c.window)

def setRegistry (c : Client σ) (r : Registry) (w : World σ) : World σ :=
  { w with registries := w.registries.insert c.name r }

def onRegistry (c : Client σ) (f : Registry → Registry) (w : World σ) : World σ :=
  c.setRegistry (f (c.registry w)) w

def warn (c : Client σ) (event : String) (f : Failure) (fields : Option Fields) (w : World σ) :
    World σ :=
  w.logged c.logger (.ofFailure .warn event f fields)

/-- Takes a sink's answer: a failure becomes a warning that names the metric. -/
def settle (c : Client σ) (event : String) (key : MetricKey)
    (answer : Except SinkError Unit × Stage σ) (w : World σ) : World σ :=
  let w := { w with toStage := answer.2 }
  match answer.1 with
  | .ok () => w
  | .error e => c.warn event e.toFailure (some (keyField key)) w

def emit (c : Client σ) (key : MetricKey) (kind : MetricKind) (values : List Int64) (w : World σ) :
    World σ :=
  c.settle "sink.emit_failed" key (c.sink.emit ⟨key, kind, values⟩ w.toStage) w

def flush (c : Client σ) (key : MetricKey) (w : World σ) : World σ :=
  c.settle "sink.flush_failed" key (c.sink.flush key w.toStage) w

/-- Records times measured elsewhere; processor time, when it is known, under a key of its own. -/
def recordTimes (c : Client σ) (key : MetricKey) (millis : Int64) (nanos : Option Int64)
    (w : World σ) : World σ :=
  let now := w.clock.wall
  let update (r : Registry) : Registry :=
    let r := r.updateAverage key now millis
    match nanos with
    | some n => r.updateAverage (key.child Reserved.cpu) now n
    | none => r
  c.emit key .elapsedCpu [millis, nanos.getD 0] (c.onRegistry update w)

def recordReading (c : Client σ) (key : MetricKey) (r : TimerReading) (w : World σ) : World σ :=
  c.recordTimes key r.elapsedMillis (some r.cpuNanos) w

def recordInterval (c : Client σ) (key : MetricKey) (startWall endWall : Int64) (w : World σ) :
    World σ :=
  c.recordTimes key (span startWall endWall) none w

def recordCount (c : Client σ) (key : MetricKey) (delta : Int64) (w : World σ) : World σ :=
  c.emit key .counterDelta [delta] (c.onRegistry (·.addCount key delta) w)

def setCount (c : Client σ) (key : MetricKey) (value : Int64) (w : World σ) : World σ :=
  c.emit key .counter [value] (c.onRegistry (·.setCount key value) w)

def recordGauge (c : Client σ) (key : MetricKey) (value : Int64) (w : World σ) : World σ :=
  c.emit key .gauge [value] (c.onRegistry (·.updatePoint key w.clock.wall value) w)

/-- Records a level as one more value of an average. -/
def recordSample (c : Client σ) (key : MetricKey) (value : Int64) (w : World σ) : World σ :=
  c.emit key .gauge [value] (c.onRegistry (·.updateAverage key w.clock.wall value) w)

def start (c : Client σ) (p : Place) (key : MetricKey) (w : World σ) : World σ :=
  c.timer.start p key.text w

/-- Ends the section of a metric and records it under another key. -/
def finishAs (c : Client σ) (p : Place) (key target : MetricKey) (w : World σ) :
    Option TimerReading × World σ :=
  match c.timer.finish p key.text w with
  | (.ok r, w) => (some r, c.recordReading target r w)
  | (.error m, w) => (none, c.warn "timer.mismatch" m.toFailure none w)

def finish (c : Client σ) (p : Place) (key : MetricKey) (w : World σ) :
    Option TimerReading × World σ :=
  c.finishAs p key key w

def cancel (c : Client σ) (p : Place) (w : World σ) : Bool × World σ := c.timer.cancel p w

def readings (c : Client σ) (w : World σ) : List MetricReading × World σ :=
  let (rows, r) := (c.registry w).readings w.clock.wall
  (rows, c.setRegistry r w)

def reading? (c : Client σ) (key : MetricKey) (w : World σ) : Option MetricReading × World σ :=
  let (row, r) := (c.registry w).reading? key w.clock.wall
  (row, c.setRegistry r w)

end Client

structure Clients (σ : Type) where
  byName : Dict (Client σ)
  first : Client σ

namespace Clients
variable {σ : Type}

def defaultName : String := "default"

/-- One client for each configured sink, in that order; the first is the default. -/
def ofConfig (config : ValidConfig) (root : Logger) (sinkFor : String → Sink σ) : Clients σ :=
  let build (name : String) (id : Nat) : Client σ :=
    .new name ⟨id⟩ (.ofMillis config.config.windowMillis) (sinkFor name) root
  match config.config.sinks.mapIdx fun id name => build name id with
  | [] => ⟨Dict.ofList [(defaultName, build defaultName 0)], build defaultName 0⟩
  | first :: others => ⟨Dict.ofList ((first :: others).map fun c => (c.name, c)), first⟩

def get? (cs : Clients σ) (name : String) : Option (Client σ) := cs.byName.get? name

def names (cs : Clients σ) : List String := cs.byName.keys

def size (cs : Clients σ) : Nat := cs.byName.size

end Clients
end CallMetrics
