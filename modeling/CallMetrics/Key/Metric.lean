import CallMetrics.Key.Segment

/-! The keys that metrics are stored under. An operation key is `component/type/operation`; a user
key puts the user before it, a site key ends with a reserved name in place of the operation, and a
child key adds a reserved name at the end. -/

namespace CallMetrics
open Text

structure MetricKey where
  text : String
  deriving DecidableEq

namespace MetricKey

theorem eq_of_text {a b : MetricKey} (h : a.text = b.text) : a = b := by
  cases a
  cases b
  cases h
  rfl

def read (raw : String) : Except KeyError MetricKey :=
  (readTrimmed .metric raw).map fun s => ⟨s.1⟩

/-- A key of a text that is already joined: taken as it is unless it is blank. -/
def ofJoined (joined : String) : Except KeyError MetricKey :=
  if trim joined = "" then .error (.blank .metric joined.utf8ByteSize) else .ok ⟨joined⟩

/-- A slash is no blank, so a joined text that holds one is a key. -/
theorem ofJoined_of_slash {joined : String} (h : '/' ∈ joined.toList) :
    ofJoined joined = .ok ⟨joined⟩ := by
  have hblank : trim joined ≠ "" := trim_ne_empty h (by decide)
  rw [ofJoined, if_neg hblank]

def child (key : MetricKey) (name : String) : MetricKey := ⟨key.text ++ "/" ++ name⟩

end MetricKey

namespace Reserved

def concurrency : String := "_concurrency"
def total : String := "_total"
def overhead : String := "_overhead"
def errors : String := "_errors"
def cpu : String := "_cpu"

end Reserved

def sitePrefix (component : ComponentKey) (type : CallType) : String :=
  component.text ++ "/" ++ type.text ++ "/"

def userSegment (userPrefix : String) (user : UserId) : String := userPrefix ++ user.text ++ "/"

def operationKey (component : ComponentKey) (type : CallType) (operation : OperationName) :
    MetricKey := ⟨sitePrefix component type ++ operation.text⟩

def userKey (userPrefix : String) (user : UserId) (operation : MetricKey) : MetricKey :=
  ⟨userSegment userPrefix user ++ operation.text⟩

/-- The type of a site, read back from the beginning of its keys. -/
def typeOfPrefix? (component : ComponentKey) (keyPrefix : String) : Option CallType := do
  let rest ← (component.text ++ "/").toList.isPrefixOf? keyPrefix.toList
  let raw ← ['/'].isSuffixOf? rest
  (CallType.read (String.ofList raw)).toOption

/-- An operation key that is built of the beginning of a site's keys without joining texts. -/
def unjoinedOperationKey (component : ComponentKey) (keyPrefix : String)
    (operation : OperationName) : MetricKey :=
  operationKey component ((typeOfPrefix? component keyPrefix).getD .rpc) operation

def siteKey (component : ComponentKey) (type : CallType) (name : String) : MetricKey :=
  ⟨sitePrefix component type ++ name⟩

end CallMetrics
