import CallMetrics.CommandLine.Arguments
import CallMetrics.Config.Load
import CallMetrics.Config.Schema
import CallMetrics.Simulation.Report

/-! What the program answers to its arguments. All commands but the simulation have their output
at once; a simulation is handed out to be run, and its output is made when it has ended. -/

namespace CallMetrics

namespace Program

def name : String := "callmeter"

def package : String := "callmeter-cli"

def version : String := "0.4.0"

end Program

/-- What the program finds around it. -/
structure Surroundings where
  environment : String → Option String
  file : String → Except FileFault String

structure Simulation where
  mode : OutputMode
  config : ValidConfig
  metrics : MetricsTarget
  engine : WorkloadEngine

inductive Response
  | output (o : CommandOutput)
  | usage
  | simulation (s : Simulation)

namespace Respond

def success (m : OutputMode) (text : String) (v : Value) (progress : String := "") :
    CommandOutput := ⟨m.form.render text v, progress, .ok⟩

def buildMembers : List (String × Value) := [("status", .text "ok"), ("build", .record [
  ("name", .text Program.package), ("version", .text Program.version),
  ("engineVersion", .text Program.version), ("adaptersVersion", .text Program.version),
  ("threadCpuClock", .bool true)])]

def info (m : OutputMode) : CommandOutput :=
  let text := "status: ok\nname: " ++ Program.package ++ "\nversion: " ++ Program.version ++
    "\nengine: " ++ Program.version ++ "\nadapters: " ++ Program.version ++
    "\nthreadCpuClock: supported\n"
  let members := match m.form with
    | .ndjson => ("type", Value.text "summary") :: ("kind", .text "info") :: buildMembers
    | _ => buildMembers
  success m text (.record members)

/-- The schema is JSON in every form. -/
def schema (m : OutputMode) : CommandOutput :=
  success m (Json.prettyLines Schema.document) Schema.document

def pathValue : Option String → Value
  | some path => .text path
  | none => .null

def load (around : Surroundings) (env : Layer) (source : ConfigSource) :
    Except Failure ValidConfig :=
  (Config.loadFile (source.path.map fun path => (path, around.file path)) source.overrides
    env).mapError LoadError.toFailure

def showConfig (m : OutputMode) (source : ConfigSource) (form : ConfigSyntax) (c : ValidConfig) :
    CommandOutput :=
  let shown := match form with
    | .json => c.config.toJson
    | .toml => c.config.toToml
  success m ("status: ok\nconfig:\n" ++ shown)
    (.record [("status", .text "ok"), ("configPath", pathValue source.path),
      ("effectiveConfig", c.config.toValue)])
    (m.progress "config show completed")

def validateConfig (m : OutputMode) (source : ConfigSource) : CommandOutput :=
  success m
    ("status: ok\nconfig: ok\n" ++ match source.path with
      | some path => "path: " ++ path ++ "\n"
      | none => "")
    (.record [("status", .text "ok"), ("configPath", pathValue source.path)])
    (m.progress "config validate completed")

def sinkFor (metrics : MetricsTarget) (client : String) : Sink Journal :=
  match metrics with
  | .discarded => .discarding
  | _ => .lines client (Dict.ofList [("client", client)])

def simulation (m : OutputMode) (o : SimulateOptions) (c : ValidConfig)
    (operations : List OperationName) : Simulation :=
  let logger : Logger := ⟨if c.config.logJson then .json c.config.logLevel else .tracing, ∅⟩
  let clients := Clients.ofConfig c logger (sinkFor o.metrics)
  ⟨m, c, o.metrics, ⟨o.workers, o.calls, o.rounds, o.failEvery, operations⟩,
    .ofConfig c clients.first .bound logger, logger⟩

/-- A failure that ends the program before its command has output. -/
def refusal (message : String) : CommandOutput :=
  ⟨"", "error: invalid input: " ++ message ++ "\n", .invalidInput⟩

def prepare (m : OutputMode) (o : SimulateOptions) (around : Surroundings) (env : Layer) :
    Response :=
  if o.workers = 0 ∨ o.calls = 0 ∨ o.rounds = 0 then
    .output (refusal "workers, calls and rounds must be positive")
  else
    match load around env o.source with
    | .error f => .output (f.output m)
    | .ok c =>
      match Workload.readOperations o.operations with
      | .error f => .output (f.output m)
      | .ok operations => .simulation (simulation m o c operations)

def configured (m : OutputMode) (around : Surroundings)
    (next : Layer → Response) : Response :=
  match Layer.ofEnvironment around.environment with
  | .error e => .output (e.toFailure.output m)
  | .ok env => next env

def withConfig (m : OutputMode) (around : Surroundings) (source : ConfigSource)
    (next : ValidConfig → CommandOutput) : Response :=
  configured m around fun env =>
    match load around env source with
    | .error f => .output (f.output m)
    | .ok c => .output (next c)

def command (m : OutputMode) (around : Surroundings) : Command → Response
  | .info => .output (info m)
  | .configSchema => .output (schema m)
  | .showConfig source form => withConfig m around source (showConfig m source form)
  | .validateConfig source => withConfig m around source fun _ => validateConfig m source
  | .simulate o => configured m around (prepare m o around)

def helpText : String :=
  "Usage: " ++ Program.name ++ " [OPTIONS] <COMMAND>\n\n" ++
  "Commands:\n  info\n  config show|validate|schema\n  simulate\n\n" ++
  "Options:\n  --output <text|json|ndjson>\n  --no-progress\n  -h, --help\n  -V, --version\n"

end Respond

def respond (arguments : List String) (around : Surroundings) : Response :=
  match Arguments.read arguments with
  | none => .usage
  | some .help => .output ⟨Respond.helpText, "", .ok⟩
  | some .version => .output ⟨Program.name ++ " " ++ Program.version ++ "\n", "", .ok⟩
  | some (.command m c) => Respond.command m around c

namespace Simulation

def start (s : Simulation) (now : Clock) : Progress :=
  WorkloadEngine.start (World.started s.config ⟨now, Journal.empty⟩)

/-- The workers one after the other. -/
def events (s : Simulation) : List WorkloadEvent := s.engine.events fun _ => []

def event (s : Simulation) (now : Clock) (p : Progress) (e : WorkloadEvent) : Progress :=
  s.engine.event { p with world := { p.world with clock := now } } e

/-- All events, while no time passes. -/
def runAt (s : Simulation) (now : Clock) : Progress :=
  s.events.foldl (s.event now) (s.start now)

/-- A trace event as a line of the error stream, if it is important enough. -/
def traceLine (s : Simulation) (t : TraceEvent) : String :=
  match LogLevel.read? t.level with
  | some level =>
    if s.config.config.logLevel ≤ level then
      t.level ++ " " ++ t.message ++ " event=" ++ t.event ++ " fields=" ++ t.fields ++ " error=" ++
        t.error ++ "\n"
    else ""
  | none => ""

def logText (s : Simulation) (p : Progress) : String :=
  String.join (p.world.log.toList.map fun
    | .line text => text
    | .trace t => s.traceLine t
    | .captured _ => "")

def metricText (p : Progress) : String :=
  String.join (p.world.store.entries.toList.map fun
    | (_, .line text) => text
    | _ => "")

def output (s : Simulation) (p : Progress) : CommandOutput :=
  let w := s.engine.workload
  let report := s.engine.report p
  let metrics := metricText p
  let progress :=
    s.mode.progress ("simulating " ++ toString w.workers ++ " workers x " ++ toString w.calls ++
      " calls over " ++ toString w.rounds ++ " rounds") ++
    s.mode.progress "simulate completed"
  { stdout := (if s.metrics = .stdout then metrics else "") ++
      s.mode.form.render report.text report.toValue
    stderr := (if s.metrics = .stderr then metrics else "") ++ s.logText p ++ progress
    exitCode := .ok }

end Simulation
end CallMetrics
