import CallMetrics.Failure
import CallMetrics.Json.Writer
import CallMetrics.Secret

/-! What a command writes, in one of three forms, and the code it exits with. A failure is written
without the values of its secret metadata. -/

namespace CallMetrics

inductive OutputForm
  | text
  /-- JSON over several lines. -/
  | json
  /-- JSON in one line. -/
  | ndjson
  deriving DecidableEq, Repr

namespace OutputForm

def all : List OutputForm := [.text, .json, .ndjson]

def name : OutputForm → String
  | text => "text"
  | json => "json"
  | ndjson => "ndjson"

def ofName? (s : String) : Option OutputForm := all.find? (·.name == s)

/-- A value in one of the JSON forms, members sorted by name; a text in text form. -/
def render (form : OutputForm) (text : String) (v : Value) : String :=
  match form with
  | .text => text
  | .json => Json.prettyLines v.arranged
  | .ndjson => Json.compactLine v.arranged

end OutputForm

structure OutputMode where
  form : OutputForm
  /-- Keeps progress lines off the error stream. -/
  quiet : Bool
  deriving DecidableEq, Repr

inductive ExitCode
  | ok
  | internal
  | invalidInput
  deriving DecidableEq, Repr

def ExitCode.number : ExitCode → Nat
  | ok => 0
  | internal => 1
  | invalidInput => 2

structure CommandOutput where
  stdout : String
  stderr : String
  exitCode : ExitCode
  deriving DecidableEq

namespace OutputMode

def progress (m : OutputMode) (message : String) : String :=
  if m.quiet then "" else "info: " ++ message ++ "\n"

end OutputMode

def FailureKind.exitCode : FailureKind → ExitCode
  | expected => .invalidInput
  | invariant => .internal
  | unexpected => .internal

namespace Failure

def withoutSecrets (f : Failure) : Failure := f.redact (f.metadata.keys.filter isSecretKey)

def lines (f : Failure) : String :=
  "status: error\ncode: " ++ f.code.joined ++ "\nmessage: " ++ f.message ++ "\nkind: " ++
    f.kind.label ++ "\n" ++
    (if f.metadata.isEmpty then "" else "meta:\n" ++ String.join (f.metadata.entries.map fun e =>
      "  " ++ e.1 ++ ": " ++ e.2 ++ "\n"))

def summary (f : Failure) : Value :=
  .record [("status", .text "error"), ("error", .record [("code", .text f.code.joined),
    ("kind", .text f.kind.label), ("message", .text f.message), ("meta", .ofTexts f.metadata)])]

def output (m : OutputMode) (f : Failure) : CommandOutput :=
  let shown := f.withoutSecrets
  ⟨m.form.render shown.lines shown.summary, "", f.kind.exitCode⟩

end Failure
end CallMetrics
