import CallMetrics.Decode
import CallMetrics.Key.Metric

/-! What is emitted about a metric, and what is read back: kinds with their number of values,
families, and readings. -/

namespace CallMetrics
open Decode

inductive MetricKind
  | elapsedCpu
  | counter
  | counterDelta
  | gauge
  deriving DecidableEq, Repr

namespace MetricKind

def all : List MetricKind := [.elapsedCpu, .counter, .counterDelta, .gauge]

def name : MetricKind → String
  | elapsedCpu => "elapsedCpu"
  | counter => "counter"
  | counterDelta => "counterDelta"
  | gauge => "gauge"

def arity : MetricKind → Nat
  | elapsedCpu => 2
  | _ => 1

def ofName? (s : String) : Option MetricKind := all.find? (·.name == s)

def ofValue? (v : Value) : Option MetricKind := choice json ofName? v

end MetricKind

/-- How the values of a metric are kept. Families are ordered as listed. -/
inductive MetricFamily
  | average
  | point
  | counter
  deriving DecidableEq, Repr

namespace MetricFamily

def all : List MetricFamily := [.average, .point, .counter]

def name : MetricFamily → String
  | average => "average"
  | point => "point"
  | counter => "counter"

def rank : MetricFamily → Nat
  | average => 0
  | point => 1
  | counter => 2

def ofName? (s : String) : Option MetricFamily := all.find? (·.name == s)

def ofValue? (v : Value) : Option MetricFamily := choice json ofName? v

end MetricFamily

structure MetricReading where
  name : MetricKey
  family : MetricFamily
  value : Int64
  low : Int64
  high : Int64
  count : UInt64
  deriving DecidableEq

namespace MetricReading

def toValue (r : MetricReading) : Value :=
  .record [("name", .text r.name.text), ("family", .text r.family.name),
    ("value", .int r.value.toInt), ("low", .int r.low.toInt), ("high", .int r.high.toInt),
    ("count", .ofNat r.count.toNat)]

def ofValue? (v : Value) : Option MetricReading :=
  match fields json false ["name", "family", "value", "low", "high", "count"] v with
  | some [name, family, value, low, high, count] => do
    return {
      name := ⟨← required text name⟩
      family := ← required MetricFamily.ofValue? family
      value := ← required int64 value
      low := ← required int64 low
      high := ← required int64 high
      count := ← required uint64 count }
  | _ => none

end MetricReading
end CallMetrics
