import CallMetrics.Failure.Wire
import CallMetrics.Json.Writer
import CallMetrics.Log.Level
import CallMetrics.Log.Redaction

/-! Log events and loggers. A logger adds its base fields to every event, the event's own fields
winning, and hands the event on in the form of its backend: a JSON line, a trace event, or the
event itself. Children add base fields and share the backend. -/

namespace CallMetrics

structure LogEvent where
  level : LogLevel
  event : String
  message : String
  fields : Option Fields := none
  error : Option Value := none

namespace LogEvent

/-- Reports a failure that is not handed on: its message, and the whole of it as error payload. -/
def ofFailure (level : LogLevel) (event : String) (f : Failure) (fields : Option Fields := none) :
    LogEvent := ⟨level, event, f.message, fields, some f.toValue.arranged⟩

end LogEvent

structure TraceEvent where
  level : String
  message : String
  event : String
  fields : String
  error : String
  deriving DecidableEq, Repr

inductive LogBackend
  /-- JSON lines for events of at least a given level. -/
  | json (least : LogLevel)
  | tracing
  /-- Keeps the events as they are, secrets included. -/
  | capture
  | silent
  deriving DecidableEq, Repr

inductive LogRecord
  | line (text : String)
  | trace (event : TraceEvent)
  | captured (event : LogEvent)

structure Logger where
  backend : LogBackend
  base : Fields := ∅

namespace Logger

def child (l : Logger) (fields : Fields) : Logger := { l with base := l.base.merge fields }

def merged (l : Logger) (e : LogEvent) : Fields := l.base.merge (e.fields.getD ∅)

/-- The JSON form of an event: fields and error only when present, members sorted by name. -/
def payload (l : Logger) (now : Int64) (e : LogEvent) : Value :=
  let fields := redactFields (l.merged e)
  .record ((match e.error with
    | some error => [("error", error.redacted)]
    | none => []) ++
    ("event", .text e.event) ::
    ((if fields.isEmpty then [] else [("fields", .ofDict fields)]) ++
    [("level", .text e.level.name), ("message", .text e.message),
      ("timestampMs", .int now.toInt)]))

def traceEvent (l : Logger) (e : LogEvent) : TraceEvent where
  level := Text.upper e.level.name
  message := e.message
  event := e.event
  fields := Json.compact (.ofDict (redactFields (l.merged e)))
  error := (e.error.map fun error => Json.compact error.redacted).getD ""

/-- The event with the logger's fields; an event of a logger without fields keeps its own. -/
def capturedEvent (l : Logger) (e : LogEvent) : LogEvent :=
  if l.base.isEmpty then e else { e with fields := some (l.merged e) }

def record (l : Logger) (now : Int64) (e : LogEvent) : Option LogRecord :=
  match l.backend with
  | .json least => if least ≤ e.level then some (.line (Json.compactLine (l.payload now e))) else none
  | .tracing => some (.trace (l.traceEvent e))
  | .capture => some (.captured (l.capturedEvent e))
  | .silent => none

end Logger
end CallMetrics
