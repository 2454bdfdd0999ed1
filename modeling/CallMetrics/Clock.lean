import CallMetrics.Word

/-! The clocks that running code reads: the wall clock in milliseconds, the precise clock and the
processor clock in nanoseconds. -/

namespace CallMetrics

structure Clock where
  wall : Int64
  precise : Int64
  cpu : Int64
  deriving DecidableEq

namespace Clock

def nanosPerMilli : Int64 := 1000000

/-- A clock at the given wall time, whose precise time is the same moment. -/
def started (wall cpu : Int64) : Clock := ⟨wall, satMul wall nanosPerMilli, cpu⟩

def advance (c : Clock) (millis : Int64) : Clock :=
  { c with wall := c.wall + millis, precise := c.precise + satMul millis nanosPerMilli }

/-- The wall time as a time stamp, which is never negative. -/
def stamp (c : Clock) : Int64 := max 0 c.wall

def advancePrecise (c : Clock) (nanos : Int64) : Clock := { c with precise := c.precise + nanos }

def advanceCpu (c : Clock) (nanos : Int64) : Clock := { c with cpu := c.cpu + nanos }

def setWall (c : Clock) (wall : Int64) : Clock := { c with wall }

end Clock
end CallMetrics
