import CallMetrics.Failure
import CallMetrics.Text.Letters

/-! The texts that metric keys are made of. Each is read from raw text by trimming; a component
and a call type hold no slash, so they can be told apart inside a key. The types carry what
reading has checked. -/

namespace CallMetrics
open Text

/-- What a text stands for; names it in the message when it is blank. -/
inductive KeyPart
  | component
  | callType
  | operation
  | user
  | metric
  deriving DecidableEq, Repr

namespace KeyPart

def label : KeyPart → String
  | component => "ComponentKey"
  | callType => "InvocationType"
  | operation => "OperationName"
  | user => "UserId"
  | metric => "MetricKey"

def blankCode : KeyPart → String
  | component => "invalid_component_key"
  | callType => "invalid_invocation_type"
  | operation => "invalid_operation_name"
  | user => "invalid_user_id"
  | metric => "invalid_metric_key"

end KeyPart

inductive KeyError
  | blank (part : KeyPart) (length : Nat)
  | separator (segment : String)
  deriving DecidableEq, Repr

namespace KeyError

def message : KeyError → String
  | blank part _ => part.label ++ " must be non-empty"
  | separator _ => "key segment must not contain '/'"

def toFailure (e : KeyError) : Failure :=
  match e with
  | blank part length =>
    (Failure.expected ⟨"domain", part.blankCode⟩ e.message).note "input_length" (toString length)
  | separator segment =>
    (Failure.expected ⟨"domain", "separator_in_segment"⟩ e.message).note "input" segment

end KeyError

def readTrimmed (part : KeyPart) (raw : String) : Except KeyError { s : String // Trimmed s } :=
  if h : trim raw = "" then .error (.blank part raw.utf8ByteSize)
  else .ok ⟨trim raw, trimmed_trim h⟩

def readSegment (part : KeyPart) (raw : String) :
    Except KeyError { s : String // Trimmed s ∧ '/' ∉ s.toList } :=
  match readTrimmed part raw with
  | .error e => .error e
  | .ok ⟨s, h⟩ => if hs : '/' ∈ s.toList then .error (.separator s) else .ok ⟨s, h, hs⟩

structure ComponentKey where
  text : String
  trimmed : Trimmed text
  noSlash : '/' ∉ text.toList
  deriving DecidableEq

def ComponentKey.read (raw : String) : Except KeyError ComponentKey :=
  (readSegment .component raw).map fun s => ⟨s.1, s.2.1, s.2.2⟩

/-- The kind of a call: `rpc`, or the method of a request. -/
structure CallType where
  text : String
  trimmed : Trimmed text
  noSlash : '/' ∉ text.toList
  deriving DecidableEq

namespace CallType

theorem eq_of_text {a b : CallType} (h : a.text = b.text) : a = b := by
  cases a
  cases b
  cases h
  rfl

def read (raw : String) : Except KeyError CallType :=
  (readSegment .callType raw).map fun s => ⟨s.1, s.2.1, s.2.2⟩

def rpc : CallType := ⟨"rpc", by decide +kernel, by decide +kernel⟩

def get : CallType := ⟨"GET", by decide +kernel, by decide +kernel⟩

def upper (t : CallType) : CallType :=
  ⟨Text.upper t.text, trimmed_upper t.trimmed, by
    rw [slash_mem_upper_iff]
    exact t.noSlash⟩

/-- The type of a request with the given method, in upper case. -/
def ofMethod (method : String) : Except KeyError CallType := (read method).map upper

end CallType

/-- The name of an operation; it may hold slashes. -/
structure OperationName where
  text : String
  trimmed : Trimmed text
  deriving DecidableEq

namespace OperationName

theorem eq_of_text {a b : OperationName} (h : a.text = b.text) : a = b := by
  cases a
  cases b
  cases h
  rfl

def read (raw : String) : Except KeyError OperationName :=
  (readTrimmed .operation raw).map fun s => ⟨s.1, s.2⟩

def unresolved : OperationName := ⟨"_invalid", by decide +kernel⟩

end OperationName

structure UserId where
  text : String
  trimmed : Trimmed text
  deriving DecidableEq

def UserId.read (raw : String) : Except KeyError UserId :=
  (readTrimmed .user raw).map fun s => ⟨s.1, s.2⟩

end CallMetrics
