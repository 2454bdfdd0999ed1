import CallMetrics.CommandLine.Respond
import Std.Time.DateTime.Timestamp

/-! The program: finds what is around it, answers its arguments, and runs simulations in real
time. -/

namespace CallMetrics.Main

/-- The processor time of this thread in nanoseconds, zero where the system does not tell. -/
def readCpu : IO Int64 := do
  let text ← (IO.FS.readFile "/proc/thread-self/schedstat").catchExceptions fun _ => pure ""
  return Int64.ofNat ((((text.takeWhile Char.isDigit).toString).toNat?).getD 0)

def readClock : IO Clock := do
  let wall ← Std.Time.Timestamp.now
  return ⟨Int64.ofInt wall.toMillisecondsSinceUnixEpoch.val, Int64.ofNat (← IO.monoNanosNow),
    ← readCpu⟩

def faultOf : IO.Error → FileFault
  | .noFileOrDirectory .. => .notFound "No such file or directory (os error 2)"
  | .permissionDenied .. => .denied "Permission denied (os error 13)"
  | .inappropriateType _ code details => .other (details ++ " (os error " ++ toString code ++ ")")
  | .otherError code details => .other (details ++ " (os error " ++ toString code ++ ")")
  | e => .other e.toString

def readFile (path : String) : IO (Except FileFault String) := do
  match ← (IO.FS.readBinFile path).toBaseIO with
  | .error e => return .error (faultOf e)
  | .ok bytes =>
    match String.fromUTF8? bytes with
    | some text => return .ok text
    | none => return .error (.other "stream did not contain valid UTF-8")

def settingsPath? (arguments : List String) : Option String :=
  match Arguments.read arguments with
  | some (.command _ c) => c.source?.bind (·.path)
  | _ => none

def readSurroundings (arguments : List String) : IO Surroundings := do
  let found ← Variable.all.filterMapM fun v => do
    return (← IO.getEnv v.name).map fun value => (v.name, value)
  let environment := Dict.ofList found
  let file ← match settingsPath? arguments with
    | some path => readFile path
    | none => pure (.ok "")
  return ⟨environment.get?, fun _ => file⟩

/-- Runs the events of a simulation one after the other, each at the time that it happens. -/
def runSimulation (s : Simulation) : IO CommandOutput := do
  let mut p := s.start (← readClock)
  for e in s.events do
    let _ ← IO.lazyPure fun _ => p.work e
    p := s.event (← readClock) p e
  return s.output p

def write (o : CommandOutput) : IO UInt32 := do
  (← IO.getStdout).putStr o.stdout
  (← IO.getStderr).putStr o.stderr
  return UInt32.ofNat o.exitCode.number

end CallMetrics.Main

open CallMetrics in
def main (arguments : List String) : IO UInt32 := do
  match respond arguments (← Main.readSurroundings arguments) with
  | .output o => Main.write o
  | .usage => Main.write ⟨"", Respond.helpText, .invalidInput⟩
  | .simulation s => Main.write (← Main.runSimulation s)
