import CallMetrics.Failure
import CallMetrics.Text.Blank

/-! Identifiers that tie the log events of one call together. -/

namespace CallMetrics
open Text

structure CorrelationId where
  text : String
  deriving DecidableEq, Repr

namespace CorrelationId

def read (raw : String) : Except Failure CorrelationId :=
  if trim raw = "" then .error (.expected .invalidInput "correlationId must be non-empty")
  else .ok ⟨trim raw⟩

def ofCall (n : Nat) : CorrelationId := ⟨"inv_" ++ toString n⟩

end CorrelationId
end CallMetrics
