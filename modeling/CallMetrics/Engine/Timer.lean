import CallMetrics.Engine.World

/-! Timers. A timer opens and ends sections in the context that the calling code runs in. -/

namespace CallMetrics

structure Timer where
  id : TimerId
  deriving DecidableEq

namespace Timer
variable {σ : Type}

def start (t : Timer) (p : Place) (name : String) (w : World σ) : World σ :=
  { w with timers := w.timers.push p.context t.id (.opened name w.clock) }

def finish (t : Timer) (p : Place) (name : String) (w : World σ) :
    Except TimerMismatch TimerReading × World σ :=
  w.onTimers fun s => s.finish p.context t.id name w.clock

def cancel (t : Timer) (p : Place) (w : World σ) : Bool × World σ :=
  w.onTimers fun s => s.cancel p.context t.id

def depth (t : Timer) (p : Place) (w : World σ) : Nat := w.timers.depth p.context t.id

end Timer
end CallMetrics
