import CallMetrics.Log.Level

/-! The settings of an instrumented program, and a layer of them: some settings given, the others
left to the layers below. -/

namespace CallMetrics

inductive HistoryKey
  | numeric
  | lexicalTimestamp
  deriving DecidableEq, Repr

namespace HistoryKey

def all : List HistoryKey := [.numeric, .lexicalTimestamp]

def name : HistoryKey → String
  | numeric => "numeric"
  | lexicalTimestamp => "lexicalTimestamp"

def ofName? (s : String) : Option HistoryKey := all.find? (·.name == s)

/-- The kind that a text names between blanks; `lexical_timestamp` is a second name. -/
def read? (raw : String) : Option HistoryKey :=
  let s := Text.trim raw
  if s = "lexical_timestamp" then some lexicalTimestamp else ofName? s

end HistoryKey

structure Config where
  version : UInt32 := 1
  /-- How long an average or a point stays valid, in milliseconds. -/
  windowMillis : UInt64 := 15000
  component : String := "server"
  userPrefix : String := "user:"
  /-- Stands in for a user who cannot be found out. -/
  anonymousUser : String := "anonymous"
  /-- How many joined keys are kept for one left part. -/
  concatCap : UInt32 := 10000
  historySize : UInt32 := 10
  historyKey : HistoryKey := .numeric
  /-- The names of the clients to build, one for each sink; the first is the default. -/
  sinks : List String := ["default"]
  logLevel : LogLevel := .info
  logJson : Bool := false
  deriving DecidableEq

structure Layer where
  version : Option UInt32 := none
  windowMillis : Option UInt64 := none
  component : Option String := none
  userPrefix : Option String := none
  anonymousUser : Option String := none
  concatCap : Option UInt32 := none
  historySize : Option UInt32 := none
  historyKey : Option HistoryKey := none
  sinks : Option (List String) := none
  logLevel : Option LogLevel := none
  logJson : Option Bool := none
  deriving DecidableEq

def Config.apply (c : Config) (l : Layer) : Config where
  version := l.version.getD c.version
  windowMillis := l.windowMillis.getD c.windowMillis
  component := l.component.getD c.component
  userPrefix := l.userPrefix.getD c.userPrefix
  anonymousUser := l.anonymousUser.getD c.anonymousUser
  concatCap := l.concatCap.getD c.concatCap
  historySize := l.historySize.getD c.historySize
  historyKey := l.historyKey.getD c.historyKey
  sinks := l.sinks.getD c.sinks
  logLevel := l.logLevel.getD c.logLevel
  logJson := l.logJson.getD c.logJson

/-- The settings by the names they have in documents. -/
inductive ConfigField
  | version
  | windowMillis
  | component
  | userPrefix
  | anonymousUser
  | concatCap
  | historySize
  | historyKey
  | sinks
  | logLevel
  | logJson
  deriving DecidableEq, Repr

namespace ConfigField

def label : ConfigField → String
  | version => "version"
  | windowMillis => "windowMs"
  | component => "componentKey"
  | userPrefix => "userPrefix"
  | anonymousUser => "anonymousUser"
  | concatCap => "concatInnerCap"
  | historySize => "historySize"
  | historyKey => "historyKey"
  | sinks => "sinks"
  | logLevel => "level"
  | logJson => "json"

/-- The part of a document that the setting stands in. -/
def group : ConfigField → String
  | version | sinks => "root"
  | windowMillis => "metrics"
  | component | userPrefix | anonymousUser => "dispatcher"
  | concatCap | historySize | historyKey => "caches"
  | logLevel | logJson => "logging"

def path (f : ConfigField) : String := f.group ++ "." ++ f.label

end ConfigField
end CallMetrics
