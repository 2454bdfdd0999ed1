import CallMetrics.CommandLine.Output
import CallMetrics.Text.Numeral

/-! The arguments of the program. Arguments come in levels: those of the program, those of a
command, and those of a command within it. Each level has options of its own, and some options may
stand at every level; the innermost use of such an option counts. Within a level an option that
takes one value may be used once. -/

namespace CallMetrics
open Text

inductive ConfigSyntax
  | json
  | toml
  deriving DecidableEq, Repr

def ConfigSyntax.ofName? : String → Option ConfigSyntax
  | "json" => some .json
  | "toml" => some .toml
  | _ => none

inductive MetricsTarget
  | discarded
  | stdout
  | stderr
  deriving DecidableEq, Repr

def MetricsTarget.ofName? : String → Option MetricsTarget
  | "none" => some .discarded
  | "stdout" => some .stdout
  | "stderr" => some .stderr
  | _ => none

/-- Where settings come from, besides the environment. -/
structure ConfigSource where
  path : Option String
  overrides : Option String
  deriving DecidableEq, Repr

structure SimulateOptions where
  source : ConfigSource
  workers : Nat
  calls : Nat
  rounds : Nat
  failEvery : Nat
  operations : List String
  metrics : MetricsTarget
  deriving DecidableEq, Repr

inductive Command
  | info
  | showConfig (source : ConfigSource) (form : ConfigSyntax)
  | validateConfig (source : ConfigSource)
  | configSchema
  | simulate (options : SimulateOptions)
  deriving DecidableEq, Repr

inductive Request
  | help
  | version
  | command (mode : OutputMode) (c : Command)
  deriving DecidableEq, Repr

def Command.source? : Command → Option ConfigSource
  | info => none
  | showConfig source _ => some source
  | validateConfig source => some source
  | configSchema => none
  | simulate options => some options.source

namespace Arguments

structure Level where
  valued : List String
  flags : List String
  hasVersion : Bool := false

/-- The options of one level in order, with their values. -/
abbrev Options := List (String × String)

inductive Ending
  | done
  | word (w : String) (rest : List String)
  | help
  | version

def splitEquals (cs : List Char) : List Char × Option (List Char) :=
  match cs.dropWhile (· ≠ '=') with
  | [] => (cs, none)
  | _ :: value => (cs.takeWhile (· ≠ '='), some value)

/-- A value does not look like an option; a single dash does not. -/
def isValue (s : String) : Bool :=
  match s.toList with
  | ['-'] => true
  | '-' :: _ => false
  | _ => true

/-- Reads the options of one level up to its end. Nothing is read for a wrong argument. -/
def readLevel (level : Level) : List String → Option (Options × Ending)
  | [] => some ([], .done)
  | argument :: rest =>
    match argument.toList with
    | ['-', '-'] => if rest.isEmpty then some ([], .done) else none
    | '-' :: '-' :: cs =>
      let (name, attached) := splitEquals cs
      let name := String.ofList name
      match attached with
      | some value =>
        if name ∈ level.valued then
          (readLevel level rest).map fun r => ((name, String.ofList value) :: r.1, r.2)
        else none
      | none =>
        if name = "help" then some ([], .help)
        else if name = "version" ∧ level.hasVersion then some ([], .version)
        else if name ∈ level.flags then
          (readLevel level rest).map fun r => ((name, "") :: r.1, r.2)
        else if name ∈ level.valued then
          match rest with
          | [] => none
          | value :: rest =>
            if isValue value then
              (readLevel level rest).map fun r => ((name, value) :: r.1, r.2)
            else none
        else none
    | '-' :: 'h' :: _ => some ([], .help)
    | '-' :: 'V' :: _ => if level.hasVersion then some ([], .version) else none
    | ['-'] => some ([], .word argument rest)
    | '-' :: _ => none
    | _ => some ([], .word argument rest)

def values (name : String) (options : Options) : List String :=
  options.filterMap fun o => if o.1 = name then some o.2 else none

def once (name : String) (options : Options) : Option (Option String) :=
  match values name options with
  | [] => some none
  | [value] => some (some value)
  | _ => none

def readOnce {α : Type} (name : String) (read : String → Option α) (options : Options) :
    Option (Option α) := do
  match ← once name options with
  | none => return none
  | some value => return some (← read value)

def readFlag (name : String) (options : Options) : Option Bool :=
  (once name options).map Option.isSome

/-- The options that may stand at every level. -/
structure Common where
  form : Option OutputForm := none
  json : Bool := false
  quiet : Bool := false

namespace Common

def valued : List String := ["output"]

def flags : List String := ["no-progress", "json"]

def read (options : Options) : Option Common := do
  return {
    form := ← readOnce "output" OutputForm.ofName? options
    json := ← readFlag "json" options
    quiet := ← readFlag "no-progress" options }

/-- The options of two levels; those of the inner one count. -/
def within (inner outer : Common) : Common where
  form := inner.form.orElse fun _ => outer.form
  json := inner.json || outer.json
  quiet := inner.quiet || outer.quiet

def mode (c : Common) : OutputMode :=
  ⟨c.form.getD (if c.json then .json else .text), c.quiet⟩

end Common

def level (valued : List String) : Level := ⟨Common.valued ++ valued, Common.flags, false⟩

def nonEmpty (s : String) : Option String := if s = "" then none else some s

def word64 (s : String) : Option Nat :=
  match readNat? s with
  | some n => if n < UInt64.size then some n else none
  | none => none

def readSource (pathName : String) (options : Options) : Option ConfigSource := do
  return ⟨← readOnce pathName nonEmpty options, ← once "overrides-json" options⟩

def readLast (outer : Common) (valued : List String) (read : Options → Option Command)
    (arguments : List String) : Option Request := do
  match ← readLevel (level valued) arguments with
  | (options, .done) =>
    let common ← Common.read options
    return .command (common.within outer).mode (← read options)
  | (options, .help) =>
    let _ ← Common.read options
    let _ ← read options
    return .help
  | _ => none

def readSimulate (options : Options) : Option Command := do
  return .simulate {
    source := ← readSource "config" options
    workers := (← readOnce "workers" word64 options).getD 4
    calls := (← readOnce "calls" word64 options).getD 25
    rounds := (← readOnce "rounds" word64 options).getD 3
    failEvery := (← readOnce "fail-every" word64 options).getD 0
    operations := values "operation" options
    metrics := (← readOnce "metrics" MetricsTarget.ofName? options).getD .discarded }

/-- The words after `help` that name a command. -/
def helpTopics : List (List String) := [[], ["help"], ["info"], ["simulate"], ["config"],
  ["config", "help"], ["config", "show"], ["config", "validate"], ["config", "schema"]]

def readHelp (topic : List String) : Option Request :=
  if topic ∈ helpTopics then some .help else none

def readConfigCommand (outer : Common) (name : String) (arguments : List String) :
    Option Request :=
  match name with
  | "show" =>
    readLast outer ["path", "overrides-json", "syntax"] (fun options => do
      return .showConfig (← readSource "path" options)
        ((← readOnce "syntax" ConfigSyntax.ofName? options).getD .toml)) arguments
  | "validate" =>
    readLast outer ["path", "overrides-json"] (fun options => do
      return .validateConfig (← readSource "path" options)) arguments
  | "schema" => readLast outer [] (fun _ => some .configSchema) arguments
  | "help" => readHelp ("config" :: arguments)
  | _ => none

def readCommand (outer : Common) (name : String) (arguments : List String) : Option Request :=
  match name with
  | "info" => readLast outer [] (fun _ => some .info) arguments
  | "config" => do
    let (options, ending) ← readLevel (level []) arguments
    let common := (← Common.read options).within outer
    match ending with
    | .word w rest => readConfigCommand common w rest
    | .help => return .help
    | _ => none
  | "simulate" =>
    readLast outer ["config", "overrides-json", "workers", "calls", "rounds", "fail-every",
      "operation", "metrics"] readSimulate arguments
  | "help" => readHelp arguments
  | _ => none

def read (arguments : List String) : Option Request := do
  let (options, ending) ← readLevel { level [] with hasVersion := true } arguments
  let common ← Common.read options
  match ending with
  | .word w rest => readCommand common w rest
  | .help => return .help
  | .version => return .version
  | .done => none

end Arguments
end CallMetrics
