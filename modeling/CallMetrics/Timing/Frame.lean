import CallMetrics.Clock
import CallMetrics.Decode
import CallMetrics.Failure

/-! A timed section: a frame while it runs, a reading once it has ended. -/

namespace CallMetrics
open Decode

structure TimerReading where
  startWall : Int64
  endWall : Int64
  startCpu : Int64
  endCpu : Int64
  deriving DecidableEq

namespace TimerReading

def elapsedMillis (r : TimerReading) : Int64 := span r.startWall r.endWall

def cpuNanos (r : TimerReading) : Int64 := span r.startCpu r.endCpu

def between (begun now : Clock) : TimerReading := ⟨begun.wall, now.wall, begun.cpu, now.cpu⟩

def toValue (r : TimerReading) : Value :=
  .record [("startWallMillis", .int r.startWall.toInt), ("endWallMillis", .int r.endWall.toInt),
    ("startCpuNanos", .int r.startCpu.toInt), ("endCpuNanos", .int r.endCpu.toInt)]

def ofValue? (v : Value) : Option TimerReading :=
  match fields json false ["startWallMillis", "endWallMillis", "startCpuNanos", "endCpuNanos"] v with
  | some [startWall, endWall, startCpu, endCpu] => do
    return {
      startWall := ← required int64 startWall
      endWall := ← required int64 endWall
      startCpu := ← required int64 startCpu
      endCpu := ← required int64 endCpu }
  | _ => none

end TimerReading

/-- An open section with the clock readings of its start. -/
structure Frame where
  name : String
  startWall : Int64
  startCpu : Int64
  deriving DecidableEq

namespace Frame

def opened (name : String) (now : Clock) : Frame := ⟨name, now.wall, now.cpu⟩

def close (f : Frame) (now : Clock) : TimerReading := ⟨f.startWall, now.wall, f.startCpu, now.cpu⟩

end Frame

inductive TimerMismatch
  | noFrame (expected : String)
  | otherFrame (expected found : String)
  deriving DecidableEq, Repr

namespace TimerMismatch

def message : TimerMismatch → String
  | noFrame expected => "timer end `" ++ expected ++ "` called with no open frame"
  | otherFrame expected found => "timer end `" ++ expected ++ "` popped frame `" ++ found ++ "`"

def toFailure (m : TimerMismatch) : Failure :=
  let failure := Failure.expected ⟨"timer", "mismatch"⟩ m.message
  match m with
  | noFrame expected => failure.note "expected" expected
  | otherFrame expected found => (failure.note "expected" expected).note "found" found

end TimerMismatch

/-- Ends the innermost section of a stack, which must have the given name. The section is removed
whether or not the names agree. -/
def endFrame (name : String) (now : Clock) :
    List Frame → Except TimerMismatch TimerReading × List Frame
  | [] => (.error (.noFrame name), [])
  | f :: rest =>
    if f.name = name then (.ok (f.close now), rest) else (.error (.otherFrame name f.name), rest)

@[simp] theorem endFrame_snd (name : String) (now : Clock) (frames : List Frame) :
    (endFrame name now frames).2 = frames.tail := by
  unfold endFrame
  split
  · rfl
  · split <;> rfl

@[simp] theorem endFrame_opened (name : String) (begun now : Clock) (rest : List Frame) :
    endFrame name now (.opened name begun :: rest) = (.ok (.between begun now), rest) := if_pos rfl

end CallMetrics
