import CallMetrics.Secret
import CallMetrics.Value

/-! Hiding secrets in structured data. A value under a secret name is masked as a whole, at any
depth and inside lists; everything else stays as it is. -/

namespace CallMetrics

mutual

def Value.redacted : Value → Value
  | .list items => .list (redactItems items)
  | .record members => .record (redactMembers members)
  | .null => .null
  | .bool b => .bool b
  | .int n => .int n
  | .real digits => .real digits
  | .text s => .text s
  | .foreign => .foreign

def redactItems : List Value → List Value
  | [] => []
  | v :: rest => v.redacted :: redactItems rest

def redactMembers : List (String × Value) → List (String × Value)
  | [] => []
  | (name, v) :: rest =>
    (name, if isSecretKey name then .text secretMask else v.redacted) :: redactMembers rest

end

def redactFields (fields : Fields) : Fields :=
  fields.map fun name v => if isSecretKey name then .text secretMask else v.redacted

end CallMetrics
