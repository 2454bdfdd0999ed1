import CallMetrics.Decode
import CallMetrics.Text.Letters

/-! Levels of log events, from the least to the most severe. -/

namespace CallMetrics

inductive LogLevel
  | debug
  | info
  | warn
  | error
  deriving DecidableEq, Repr

namespace LogLevel

def all : List LogLevel := [.debug, .info, .warn, .error]

def name : LogLevel → String
  | debug => "debug"
  | info => "info"
  | warn => "warn"
  | error => "error"

def rank : LogLevel → Nat
  | debug => 0
  | info => 1
  | warn => 2
  | error => 3

instance : LE LogLevel := ⟨fun a b => a.rank ≤ b.rank⟩
instance (a b : LogLevel) : Decidable (a ≤ b) := inferInstanceAs (Decidable (a.rank ≤ b.rank))

def ofName? (s : String) : Option LogLevel := all.find? (·.name == s)

/-- The level that a text names in any letter case; `warning` is a second name of `warn`. -/
def read? (raw : String) : Option LogLevel :=
  let s := Text.lower (Text.trim raw)
  if s = "warning" then some warn else ofName? s

end LogLevel
end CallMetrics
