import CallMetrics.Proofs.Engine.Steps

/-! Dispatchers whose sink is observed: what they do to the world shows all calls that the sink is
given. -/

namespace CallMetrics
variable {σ : Type}

namespace Dispatcher

def observed (d : Dispatcher σ) : Dispatcher (Observed σ) where
  userPrefix := d.userPrefix
  anonymousUser := d.anonymousUser
  client := ⟨d.client.name, d.client.timer, d.client.window, d.client.sink.observed, d.client.logger⟩
  identity := d.identity
  logger := d.logger

variable (d : Dispatcher σ)

theorem calls_takeAll (calls : List SinkCall) (stage : Stage (Observed σ)) :
    (d.observed.client.sink.takeAll calls stage).store.calls = stage.store.calls ++ calls :=
  d.client.sink.calls_takeAll_observed calls stage

/-- With a sink that moves no clock, recording takes no time. -/
theorem overhead_observed (hstill : d.client.sink.Still) (p : Place) (call : Invocation)
    (w : World (Observed σ)) : d.observed.overhead p call w = 0 := by
  have hclock : (d.observed.recordCall p call w).clock = w.clock := by
    rw [(d.observed.ended_recordCall p call w).stage]
    exact hstill.observed.takeAll _ w.toStage
  rw [overhead, hclock, span_self]

/-- A dispatcher as it is configured by default. It keeps no log, its sink drops what it is given,
and it does not know its users. -/
def quiet : Dispatcher Unit :=
  .ofConfig .default (.new Clients.defaultName ⟨0⟩ (.ofMillis 60000) .discarding ⟨.silent, ∅⟩)
    (.failing "unknown") ⟨.silent, ∅⟩

end Dispatcher

/-- The world of a program that has done nothing yet, for a sink that keeps nothing. -/
def World.quiet : World (Observed Unit) := .started .default ⟨.started 0 0, ⟨[], ()⟩⟩

end CallMetrics
