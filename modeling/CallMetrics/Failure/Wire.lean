import CallMetrics.Decode
import CallMetrics.Failure

/-! Failures as values: written in the order of their members, without metadata when there is none,
and read back. -/

namespace CallMetrics
open Decode

namespace FailureCode

def toValue (c : FailureCode) : Value :=
  .record [("namespace", .text c.space), ("code", .text c.name)]

def ofValue? (v : Value) : Option FailureCode :=
  match fields json false ["namespace", "code"] v with
  | some [space, name] => do return ⟨← required text space, ← required text name⟩
  | _ => none

end FailureCode

namespace Failure

def toValue (f : Failure) : Value :=
  .record ([("kind", .text f.kind.wireName), ("code", f.code.toValue),
    ("message", .text f.message)] ++
    if f.metadata.isEmpty then [] else [("metadata", .ofTexts f.metadata)])

def ofValue? (v : Value) : Option Failure :=
  match fields json false ["kind", "code", "message", "metadata"] v with
  | some [kind, code, message, metadata] => do
    return {
      kind := ← required (choice json FailureKind.ofWireName?) kind
      code := ← required FailureCode.ofValue? code
      message := ← required text message
      metadata := (← optional json textDict metadata).getD ∅ }
  | _ => none

end Failure
end CallMetrics
