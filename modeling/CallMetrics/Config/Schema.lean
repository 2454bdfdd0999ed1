import CallMetrics.Config.Document

/-! The schema of settings documents: what every setting is, what it is for, and its default. -/

namespace CallMetrics.Schema

/-- The schema language that the document is written in. -/
def dialect : String := "https" ++ "://json-schema.org/draft/2020-12/schema"

/-- What a property holds, as members of its schema. -/
abbrev Shape := List (String × Value)

def textShape : Shape := [("type", .text "string")]

def boolShape : Shape := [("type", .text "boolean")]

def unsignedShape (format : String) : Shape :=
  [("format", .text format), ("minimum", .int 0), ("type", .text "integer")]

def textsShape : Shape := [("items", .record textShape), ("type", .text "array")]

def reference (definition : String) : Shape := [("$ref", .text ("#/$defs/" ++ definition))]

structure Property where
  name : String
  shape : Shape
  description : String

/-- The default of a property is its value in the default settings. -/
def Property.entry (defaults : Value) (p : Property) : String × Value :=
  (p.name, .record (("default", (defaults.member? p.name).getD .null) ::
    ("description", .text p.description) :: p.shape))

/-- A record that has no other properties. -/
def recordShape (description : String) (defaults : Value) (properties : List Property) : Shape :=
  [("additionalProperties", .bool false), ("description", .text description),
    ("properties", .record (properties.map (·.entry defaults))), ("type", .text "object")]

def choiceShape (description : String) (choices : List (String × String)) : Shape :=
  [("description", .text description),
    ("oneOf", .list (choices.map fun c =>
      .record (("const", .text c.1) :: ("description", .text c.2) :: textShape)))]

def defaults : Value := ({} : Config).toValue

def group (name description : String) (properties : List Property) : Value :=
  .record (recordShape description ((defaults.member? name).getD .null) properties)

def definitions : List (String × Value) := [
  ("MetricsConfig", group "metrics" "Windowed metric settings." [
    ⟨"windowMs", unsignedShape "uint64",
      "Milliseconds an averaged or point reading stays valid after its last\nupdate."⟩]),
  ("DispatcherConfig", group "dispatcher" "Dispatcher key layout settings." [
    ⟨"componentKey", textShape, "First segment of every operation key."⟩,
    ⟨"userPrefix", textShape, "Prefix prepended to the user id in per-user keys."⟩,
    ⟨"anonymousUser", textShape,
      "User id recorded when the identity lookup fails or is not configured."⟩]),
  ("CacheConfig", group "caches" "Bounded cache settings." [
    ⟨"concatInnerCap", unsignedShape "uint32",
      "Inner-map size above which the concatenation cache clears that map."⟩,
    ⟨"historySize", unsignedShape "uint32", "Number of snapshots the history buffer retains."⟩,
    ⟨"historyKey", reference "HistoryKeyKind", "Ordering key strategy for history snapshots."⟩]),
  ("HistoryKeyKind", .record (choiceShape "Ordering key strategy for history snapshots." [
    (HistoryKey.numeric.name, "Strictly monotonic numeric key."),
    (HistoryKey.lexicalTimestamp.name,
      "Legacy formatted-timestamp key, compared as text. Can misorder.")])),
  ("LoggingConfig", group "logging" "Logging settings." [
    ⟨"level", reference "LogLevelSetting", "Minimum level."⟩,
    ⟨"json", boolShape, "Emit JSON lines instead of human-readable output."⟩]),
  ("LogLevelSetting", .record (choiceShape "Minimum log level accepted by the configured logger." [
    (LogLevel.debug.name, "Debug and above."),
    (LogLevel.info.name, "Info and above."),
    (LogLevel.warn.name, "Warn and above."),
    (LogLevel.error.name, "Errors only.")]))]

/-- The schema of a whole document, members sorted by name. -/
def document : Value :=
  (Value.record (recordShape "Top-level instrumentation configuration." defaults [
      ⟨"version", unsignedShape "uint32", "Schema version for forward-compatible migrations."⟩,
      ⟨"metrics", reference "MetricsConfig", "Windowed metric settings."⟩,
      ⟨"dispatcher", reference "DispatcherConfig", "Dispatcher key layout."⟩,
      ⟨"caches", reference "CacheConfig", "Bounded cache settings."⟩,
      ⟨"sinks", textsShape, "Names of the timer clients to build at startup."⟩,
      ⟨"logging", reference "LoggingConfig", "Logging settings."⟩] ++
    [("$defs", .record definitions), ("$schema", .text dialect),
      ("title", .text "InstrumentationConfig")])).arranged

end CallMetrics.Schema
