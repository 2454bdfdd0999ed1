import CallMetrics.Log.Logger

/-! The calls of a program that makes children of its loggers as it goes. Loggers have numbers: the root,
which has no fields, is 0, and each child gets the next one. What they hand on goes to one place, in the
order of the calls. -/

namespace CallMetrics

inductive LogCall
  | log (e : LogEvent)
  | report (level : LogLevel) (event message : String) (fields : Option Fields)
  | failure (level : LogLevel) (event : String) (f : Failure) (fields : Option Fields)

def LogCall.event : LogCall → LogEvent
  | log e => e
  | report level event message fields => { level, event, message, fields }
  | failure level event f fields => .ofFailure level event f fields

inductive LogStep
  | child (parent : Nat) (fields : Fields)
  | call (logger : Nat) (now : Int64) (call : LogCall)

structure LogSession where
  loggers : List Logger
  records : List LogRecord

namespace LogSession

def start (backend : LogBackend) : LogSession := ⟨[⟨backend, ∅⟩], []⟩

/-- A step with a logger that has not been made does nothing. -/
def step (s : LogSession) : LogStep → LogSession
  | .child parent fields =>
    { s with loggers := s.loggers ++ (s.loggers[parent]?.map (·.child fields)).toList }
  | .call logger now call =>
    { s with records := s.records ++ (s.loggers[logger]?.bind (·.record now call.event)).toList }

def run (s : LogSession) (steps : List LogStep) : LogSession := steps.foldl step s

end LogSession
end CallMetrics
