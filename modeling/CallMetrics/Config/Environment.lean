import CallMetrics.Config.Basic
import CallMetrics.Failure
import CallMetrics.Secret
import CallMetrics.Text.Numeral

/-! Settings from environment variables. Each of ten variables gives one setting; a variable that is
absent gives none, and the first one in order that is not well-formed is the error. -/

namespace CallMetrics
open Text

inductive Variable
  | windowMillis
  | component
  | userPrefix
  | anonymousUser
  | concatCap
  | historySize
  | historyKey
  | sinks
  | logLevel
  | logJson
  deriving DecidableEq, Repr

namespace Variable

def family : String := "CALLMETER_"

def name (v : Variable) : String :=
  family ++ match v with
    | windowMillis => "METRICS_WINDOW_MS"
    | component => "DISPATCHER_COMPONENT_KEY"
    | userPrefix => "DISPATCHER_USER_PREFIX"
    | anonymousUser => "DISPATCHER_ANONYMOUS_USER"
    | concatCap => "CACHES_CONCAT_INNER_CAP"
    | historySize => "CACHES_HISTORY_SIZE"
    | historyKey => "CACHES_HISTORY_KEY"
    | sinks => "SINKS"
    | logLevel => "LOG_LEVEL"
    | logJson => "LOG_JSON"

/-- The variables in the order they are read. -/
def all : List Variable := [windowMillis, component, userPrefix, anonymousUser, concatCap,
  historySize, historyKey, sinks, logLevel, logJson]

end Variable

inductive EnvironmentError
  | blank (v : Variable)
  | noBool (v : Variable) (raw : String)
  | noInteger (v : Variable) (raw : String)
  | unknownName (v : Variable) (raw : String)
  | tooManyItems (v : Variable) (count : Nat)
  deriving DecidableEq, Repr

def maxListItems : Nat := 64

namespace EnvironmentError

def codeName : EnvironmentError → String
  | blank _ => "empty_env_var"
  | noBool _ _ => "invalid_env_bool"
  | noInteger _ _ => "invalid_env_int"
  | unknownName _ _ => "invalid_env_enum"
  | tooManyItems _ _ => "invalid_env_csv"

def message : EnvironmentError → String
  | blank v => v.name ++ " must be non-empty"
  | noBool v _ => v.name ++ " must be a boolean"
  | noInteger v _ => v.name ++ " must be an integer"
  | unknownName v _ => v.name ++ " has an unsupported value"
  | tooManyItems v count =>
    v.name ++ " is too large (" ++ toString count ++ " items, max " ++ toString maxListItems ++ ")"

/-- The raw value as it is reported: not at all under a secret name. -/
def shown (v : Variable) (raw : String) : String :=
  if isSecretKey v.name then redactedValue else raw

def toFailure (e : EnvironmentError) : Failure :=
  let failure := Failure.expected ⟨"config", e.codeName⟩ e.message
  match e with
  | blank v => failure.note "env_var" v.name
  | noBool v raw | noInteger v raw | unknownName v raw =>
    (failure.note "env_var" v.name).note "value" (shown v raw)
  | tooManyItems v count =>
    ((failure.note "env_var" v.name).note "len" (toString count)).note "max" (toString maxListItems)

end EnvironmentError

/-! Readers of one value. Each is given the variable and its raw text. -/

abbrev ValueReader (α : Type) := Variable → String → Except EnvironmentError α

/-- Hands the trimmed text on unless it is blank. -/
def readNonBlank {α : Type} (read : String → Except EnvironmentError α) :
    ValueReader α := fun v raw =>
  let s := trim raw
  if s = "" then .error (.blank v) else read s

def readTextValue : ValueReader String := readNonBlank .ok

def readNatValue (bound : Nat) : ValueReader Nat := fun v raw =>
  readNonBlank (fun s => match readNat? s with
    | some n => if n < bound then .ok n else .error (.noInteger v raw)
    | none => .error (.noInteger v raw)) v raw

def readUInt64Value : ValueReader UInt64 := fun v raw =>
  (readNatValue UInt64.size v raw).map UInt64.ofNat

def readUInt32Value : ValueReader UInt32 := fun v raw =>
  (readNatValue UInt32.size v raw).map UInt32.ofNat

def trueWords : List String := ["true", "1", "yes", "on"]

def falseWords : List String := ["false", "0", "no", "off"]

def readBoolValue : ValueReader Bool := fun v raw =>
  readNonBlank (fun s =>
    if lower s ∈ trueWords then .ok true
    else if lower s ∈ falseWords then .ok false
    else .error (.noBool v raw)) v raw

def readNameValue {α : Type} (find : String → Option α) : ValueReader α := fun v raw =>
  readNonBlank (fun s => match find s with
    | some a => .ok a
    | none => .error (.unknownName v raw)) v raw

def splitCommas : List Char → List (List Char)
  | [] => [[]]
  | c :: rest =>
    if c = ',' then [] :: splitCommas rest
    else match splitCommas rest with
      | [] => [[c]]
      | first :: others => (c :: first) :: others

/-- The items of a list in a variable: trimmed, blank ones left out. -/
def listItems (raw : String) : List String :=
  ((splitCommas raw.toList).map fun item => trim (String.ofList item)).filter (· ≠ "")

def readListValue : ValueReader (List String) := fun v raw =>
  let items := listItems raw
  if items = [] then .error (.blank v)
  else if maxListItems < items.length then .error (.tooManyItems v items.length)
  else .ok items

/-- The setting of a variable, if it is there. -/
def readVariable {α : Type} (env : String → Option String) (v : Variable) (read : ValueReader α) :
    Except EnvironmentError (Option α) :=
  match env v.name with
  | none => .ok none
  | some raw => (read v raw).map some

def Layer.ofEnvironment (env : String → Option String) : Except EnvironmentError Layer := do
  let windowMillis ← readVariable env .windowMillis readUInt64Value
  let component ← readVariable env .component readTextValue
  let userPrefix ← readVariable env .userPrefix readTextValue
  let anonymousUser ← readVariable env .anonymousUser readTextValue
  let concatCap ← readVariable env .concatCap readUInt32Value
  let historySize ← readVariable env .historySize readUInt32Value
  let historyKey ← readVariable env .historyKey (readNameValue HistoryKey.read?)
  let sinks ← readVariable env .sinks readListValue
  let logLevel ← readVariable env .logLevel (readNameValue LogLevel.read?)
  let logJson ← readVariable env .logJson readBoolValue
  return { windowMillis, component, userPrefix, anonymousUser, concatCap, historySize, historyKey,
           sinks, logLevel, logJson }

end CallMetrics
