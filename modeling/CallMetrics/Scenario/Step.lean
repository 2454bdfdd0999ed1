import CallMetrics.Engine.Dispatcher
import CallMetrics.Sink.Journal

/-! Scenarios: programs over an instrumented engine, written as steps. A step acts on the clocks, on
a timer, on a client or on the dispatcher, or it runs a body of further steps in a call, with a user
bound, in a task scope, on a new thread, or as one of several tasks.

A step breaks off when it names a client, a timer or a sink that is not there. All that it is in
breaks off with it, up to the nearest call, which is unwound and gives no reports of its body. -/

namespace CallMetrics.Scenario

inductive ClientAction
  | start (key : String)
  | finish (key : String)
  | finishAs (key target : String)
  | cancel
  | depth
  | recordInterval (key : String) (startWall endWall : Int64)
  | recordTimes (key : String) (millis : Int64) (nanos : Option Int64)
  | recordReading (key : String) (reading : TimerReading)
  | recordCount (key : String) (delta : Int64)
  | setCount (key : String) (value : Int64)
  | recordGauge (key : String) (value : Int64)
  | recordSample (key : String) (value : Int64)
  | flush (key : String)
  | readings
  | reading (key : String)
  | size
  | snapshot

inductive Action
  | advance (millis : Int64)
  | advancePrecise (nanos : Int64)
  | advanceCpu (nanos : Int64)
  | setWall (millis : Int64)
  | timerStart (timer : Nat) (name : String)
  | timerFinish (timer : Nat) (name : String)
  | timerCancel (timer : Nat)
  | timerDepth (timer : Nat)
  | clocks
  | inScope
  /-- With the named client, or with the default one. -/
  | onClient (client : Option String) (a : ClientAction)
  | clients
  | hasClient (name : String)
  /-- To the sink of the named client, or to the one of the client named as the default sink is. -/
  | sinkEmit (client : Option String) (key : String) (kind : MetricKind) (values : List Int64)
  | sinkFlush (client : Option String) (key : String)
  | user
  | failure (level : LogLevel) (event : String) (f : Failure)
  | inFlight (type : String)
  | cacheStats
  | cacheSize (left : String)
  | cacheCap
  | history

/-- The way into a call. Types, operations, methods and paths are raw text. -/
inductive Entry
  | rpc (type operation : String)
  | typed (type operation : String)
  | request (method path : String)
  | task (type operation : String)

/-- What a body runs in: a task scope unless it is plain, and with a user bound to the task. -/
structure ScopeOptions where
  plain : Bool := false
  user : Option String := none

mutual

inductive Step
  | act (a : Action)
  | pause
  | call (entry : Entry) (outcome : Outcome Value Value) (body : List Step)
  | bind (user : String) (body : List Step)
  | scope (options : ScopeOptions) (body : List Step)
  | thread (body : List Step)
  | tasks (tasks : List Task)

inductive Task
  | mk (options : ScopeOptions) (body : List Step)

end

structure Seen where
  journal : Journal
  log : Array LogRecord

mutual

inductive Answer
  | nothing
  | flag (b : Bool)
  | number (n : Int)
  | text (s : String)
  | done
  | failure (f : Failure)
  | clocks (cpu wall : Int64)
  | timed (r : TimerReading)
  | reading (r : TimerReading)
  | row (r : MetricReading)
  | rows (rs : List MetricReading)
  | clients (names : List String) (default : String)
  | cache (stats : JoinStats)
  | key (k : OrderKey)
  | history (rows : List (OrderKey × MetricReading))
  | called (body : List Report) (outcome : Outcome Value Value)
  | body (reports : List Report)
  | refused (f : Failure)
  | tasks (answers : List Answer)

/-- The result of a step that has run, with what was taken since the last report. -/
inductive Report
  | mk (answer : Answer) (seen : Seen)

end

end CallMetrics.Scenario
