import CallMetrics.Simulation.Workload

/-! The report of a workload that has run. -/

namespace CallMetrics

structure SimulationReport where
  workers : Nat
  rounds : Nat
  succeeded : Nat
  failed : Nat
  cache : JoinStats
  readings : List MetricReading
  history : List (OrderKey × MetricReading)

def WorkloadEngine.report (e : WorkloadEngine) (p : Progress) : SimulationReport where
  workers := e.workload.workers
  rounds := e.workload.rounds
  succeeded := p.succeeded
  failed := p.failed
  cache := p.world.dispatch.cache.stats
  readings := (e.dispatcher.client.readings p.world).1
  history := p.world.history.rows

namespace SimulationReport

def calls (r : SimulationReport) : Nat := r.succeeded + r.failed

/-- How many different keys the rows of the history have; rows of one key stand together. -/
def snapshots (r : SimulationReport) : Nat := (r.history.map (·.1)).eraseReps.length

def rowLine (r : MetricReading) : String :=
  "  " ++ r.name.text ++ " " ++ r.family.name ++ " value=" ++ toString r.value.toInt ++ " low=" ++
    toString r.low.toInt ++ " high=" ++ toString r.high.toInt ++ " count=" ++
    toString r.count.toNat ++ "\n"

def text (r : SimulationReport) : String :=
  "status: ok\ncalls: " ++ toString r.calls ++ " (succeeded " ++ toString r.succeeded ++
    ", failed " ++ toString r.failed ++ ")\nkeyCache: hits " ++ toString r.cache.hits.toNat ++
    " misses " ++ toString r.cache.misses.toNat ++ " clears " ++ toString r.cache.clears.toNat ++
    "\nreadings:\n" ++ String.join (r.readings.map rowLine) ++ "history: " ++
    toString r.snapshots ++ " snapshots\n"

def keyValue : OrderKey → Value
  | .numeric millis => .int millis
  | .stamp text => .text text

def toValue (r : SimulationReport) : Value :=
  .record [("status", .text "ok"), ("workers", .ofNat r.workers), ("rounds", .ofNat r.rounds),
    ("calls", .ofNat r.calls), ("succeeded", .ofNat r.succeeded), ("failed", .ofNat r.failed),
    ("keyCache", .record [("hits", .ofNat r.cache.hits.toNat),
      ("misses", .ofNat r.cache.misses.toNat), ("clears", .ofNat r.cache.clears.toNat)]),
    ("readings", .list (r.readings.map (·.toValue))),
    ("history", .list (r.history.map fun e =>
      .record [("orderKey", keyValue e.1), ("row", e.2.toValue)]))]

end SimulationReport
end CallMetrics
