import CallMetrics.Config.Valid
import CallMetrics.Decode
import CallMetrics.Json.Reader
import CallMetrics.Json.Writer
import CallMetrics.Toml.Reader
import CallMetrics.Toml.Writer

/-! Settings as documents. A document is read as a layer over the defaults, in JSON or in TOML, and
settings are written in both forms. -/

namespace CallMetrics
open Decode

/-- A layer from the members of a document; unknown names are refused. -/
def Layer.ofValue? (d : Dialect) (v : Value) : Option Layer :=
  match fields d true ["version", "metrics", "dispatcher", "caches", "sinks", "logging"] v with
  | some [version, metrics, dispatcher, caches, sinks, logging] => do
    let version ← optional d uint32 version
    let sinks ← optional d texts sinks
    match ← optionalFields d ["windowMs"] metrics,
        ← optionalFields d ["componentKey", "userPrefix", "anonymousUser"] dispatcher,
        ← optionalFields d ["concatInnerCap", "historySize", "historyKey"] caches,
        ← optionalFields d ["level", "json"] logging with
    | [window], [component, userPrefix, anonymousUser], [cap, size, key], [level, json] =>
      return {
        version, sinks
        windowMillis := ← optional d uint64 window
        component := ← optional d text component
        userPrefix := ← optional d text userPrefix
        anonymousUser := ← optional d text anonymousUser
        concatCap := ← optional d uint32 cap
        historySize := ← optional d uint32 size
        historyKey := ← optional d (choice d HistoryKey.ofName?) key
        logLevel := ← optional d (choice d LogLevel.ofName?) level
        logJson := ← optional d bool json }
    | _, _, _, _ => none
  | _ => none

namespace Config

def toValue (c : Config) : Value :=
  .record [
    ("version", .ofNat c.version.toNat),
    ("metrics", .record [("windowMs", .ofNat c.windowMillis.toNat)]),
    ("dispatcher", .record [("componentKey", .text c.component),
      ("userPrefix", .text c.userPrefix), ("anonymousUser", .text c.anonymousUser)]),
    ("caches", .record [("concatInnerCap", .ofNat c.concatCap.toNat),
      ("historySize", .ofNat c.historySize.toNat), ("historyKey", .text c.historyKey.name)]),
    ("sinks", .list (c.sinks.map .text)),
    ("logging", .record [("level", .text c.logLevel.name), ("json", .bool c.logJson)])]

def toJson (c : Config) : String := Json.prettyLines c.toValue

def toToml (c : Config) : String :=
  Toml.write
    [("version", .nat c.version.toNat), ("sinks", .texts c.sinks)]
    [("metrics", [("windowMs", .nat c.windowMillis.toNat)]),
      ("dispatcher", [("componentKey", .text c.component), ("userPrefix", .text c.userPrefix),
        ("anonymousUser", .text c.anonymousUser)]),
      ("caches", [("concatInnerCap", .nat c.concatCap.toNat),
        ("historySize", .nat c.historySize.toNat), ("historyKey", .text c.historyKey.name)]),
      ("logging", [("level", .text c.logLevel.name), ("json", .bool c.logJson)])] ++ "\n"

end Config

inductive ConfigFormat
  | json
  | toml
  deriving DecidableEq, Repr

inductive DocumentFault
  | malformed
  | mismatched
  deriving DecidableEq, Repr

def DocumentFault.text : DocumentFault → String
  | malformed => "malformed text"
  | mismatched => "no settings"

namespace ConfigFormat

def name : ConfigFormat → String
  | json => "JSON"
  | toml => "TOML"

def codeName : ConfigFormat → String
  | json => "invalid_json"
  | toml => "invalid_toml"

def dialect : ConfigFormat → Dialect
  | json => Decode.json
  | toml => Decode.toml

def read (f : ConfigFormat) (s : String) : Option Value :=
  match f with
  | json => Json.read s
  | toml => Toml.read s

end ConfigFormat

def Layer.read (format : ConfigFormat) (d : Dialect) (s : String) : Except DocumentFault Layer :=
  match format.read s with
  | none => .error .malformed
  | some v =>
    match ofValue? d v with
    | none => .error .mismatched
    | some l => .ok l

/-- The report of a text that is no settings document; `what` names the text. -/
def DocumentFault.toFailure (f : DocumentFault) (format : ConfigFormat) (what : String) : Failure :=
  .expected ⟨"config", format.codeName⟩ ("invalid " ++ what ++ " " ++ format.name ++ ": " ++ f.text)

/-- Reads a document over the defaults, unchecked. -/
def Config.readDocument (format : ConfigFormat) (s : String) : Except DocumentFault Config :=
  (Layer.read format format.dialect s).map ({} : Config).apply

/-- Reads and validates a document that stands alone. -/
def Config.parse (format : ConfigFormat) (s : String) : Except Failure ValidConfig :=
  match Config.readDocument format s with
  | .error fault => .error (fault.toFailure format "config")
  | .ok c => c.validate.mapError ConfigError.toFailure

end CallMetrics
