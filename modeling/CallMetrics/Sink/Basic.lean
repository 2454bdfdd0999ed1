import CallMetrics.Clock
import CallMetrics.Metric.Kind

/-! Metric sinks. A sink takes emissions and flushes; each may fail, and may change the state of
the sink and move the clocks. An emission has as many values as its kind asks for, which `check`
verifies. -/

namespace CallMetrics

structure Emission where
  key : MetricKey
  kind : MetricKind
  values : List Int64
  deriving DecidableEq

inductive SinkError
  | rejected (key : MetricKey) (reason : String)
  | invalidValues (key : MetricKey) (kind : MetricKind) (actual : Nat)
  | unavailable (reason : String)
  deriving DecidableEq

namespace SinkError

def message : SinkError → String
  | rejected key reason => "sink rejected `" ++ key.text ++ "`: " ++ reason
  | invalidValues key kind actual =>
    "`" ++ key.text ++ "` expects " ++ toString kind.arity ++ " value(s) for " ++ kind.name ++
      ", got " ++ toString actual
  | unavailable reason => "sink unavailable: " ++ reason

def toFailure (e : SinkError) : Failure :=
  match e with
  | rejected key _ => (Failure.unexpected ⟨"sink", "emit_failed"⟩ e.message).note "metricKey" key.text
  | invalidValues key kind actual =>
    (((Failure.unexpected ⟨"sink", "invalid_values"⟩ e.message).note "metricKey" key.text).note
      "kind" kind.name).note "expected" (toString kind.arity) |>.note "actual" (toString actual)
  | unavailable _ => .unexpected ⟨"sink", "unavailable"⟩ e.message

end SinkError

/-- Refuses an emission whose number of values is not that of its kind. -/
def Emission.check (e : Emission) : Except SinkError Unit :=
  if e.values.length = e.kind.arity then .ok ()
  else .error (.invalidValues e.key e.kind e.values.length)

/-- What a sink acts on: the clocks, and the state of the sinks. -/
structure Stage (σ : Type) where
  clock : Clock
  store : σ

structure Sink (σ : Type) where
  emit : Emission → Stage σ → Except SinkError Unit × Stage σ
  flush : MetricKey → Stage σ → Except SinkError Unit × Stage σ

namespace Sink
variable {σ : Type}

def discarding : Sink σ where
  emit e s := (e.check, s)
  flush _ s := (.ok (), s)

def failing : Sink σ where
  emit e s := (.error (.rejected e.key "sink is failing"), s)
  flush _ s := (.error (.unavailable "sink is failing"), s)

/-- Calls every sink in turn and gives the first failure. -/
def callAll (call : Sink σ → Stage σ → Except SinkError Unit × Stage σ) :
    List (Sink σ) → Stage σ → Except SinkError Unit × Stage σ
  | [], s => (.ok (), s)
  | sink :: rest, s =>
    let (first, s) := call sink s
    let (others, s) := callAll call rest s
    (match first with
      | .error e => .error e
      | .ok () => others, s)

/-- Hands everything to each of the sinks, whether or not the ones before it failed. -/
def fanout (sinks : List (Sink σ)) : Sink σ where
  emit e := callAll (fun sink => sink.emit e) sinks
  flush key := callAll (fun sink => sink.flush key) sinks

def delayed (nanos millis : Int64) (inner : Sink σ) : Sink σ where
  emit e s := inner.emit e { s with clock := (s.clock.advancePrecise nanos).advance millis }
  flush := inner.flush

def refusing (test : MetricKey → Bool) (reason : String) (inner : Sink σ) : Sink σ where
  emit e s := if test e.key then (.error (.rejected e.key reason), s) else inner.emit e s
  flush key s := if test key then (.error (.rejected key reason), s) else inner.flush key s

def unflushed (inner : Sink σ) : Sink σ where
  emit := inner.emit
  flush _ s := (.ok (), s)

end Sink

inductive SinkTree (σ : Type)
  | leaf (sink : Sink σ)
  | fanout (children : List (SinkTree σ))

namespace SinkTree
variable {σ : Type}

mutual

def toSink : SinkTree σ → Sink σ
  | leaf sink => sink
  | fanout children => Sink.fanout (toSinks children)

def toSinks : List (SinkTree σ) → List (Sink σ)
  | [] => []
  | t :: rest => toSink t :: toSinks rest

end

mutual

def leaves : SinkTree σ → List (Sink σ)
  | leaf sink => [sink]
  | fanout children => leavesOfAll children

def leavesOfAll : List (SinkTree σ) → List (Sink σ)
  | [] => []
  | t :: rest => leaves t ++ leavesOfAll rest

end

end SinkTree
end CallMetrics
