import CallMetrics.Engine.Dispatcher
import CallMetrics.Sink.Journal

/-! A simulated workload. In each round every worker makes its calls on a thread of its own, the
calls of different workers interleaved as a schedule says; a round ends with a snapshot of the
readings. A turn of a worker begins its next call or closes the one it has begun. -/

namespace CallMetrics

structure Workload where
  workers : Nat
  calls : Nat
  rounds : Nat
  /-- Every so many calls of a worker one fails, none if this is zero. -/
  failEvery : Nat
  operations : List OperationName

namespace Workload

def defaultOperations : List String := ["login", "search", "checkout"]

def readOperations (names : List String) : Except Failure (List OperationName) :=
  (if names.isEmpty then defaultOperations else names).mapM fun name =>
    (OperationName.read name).mapError fun e => e.toFailure.note "operation" name

/-- The user of a worker; every fourth worker has none. -/
def user? (worker : Nat) : Option UserId :=
  if worker % 4 = 3 then none else (UserId.read ("user" ++ toString worker)).toOption

def operation? (w : Workload) (worker call : Nat) : Option OperationName :=
  w.operations[(worker + call) % w.operations.length]?

/-- The work of a call, which takes a while: a checksum over some thousand words. -/
def checksum (call : Nat) : UInt64 :=
  (List.range ((call % 7 + 1) * 2000)).foldl
    (fun sum n => ((sum <<< 5) ||| (sum >>> 59)) ^^^ UInt64.ofNat n) 0

def fails (w : Workload) (call : Nat) : Bool := 0 < w.failEvery && (call + 1) % w.failEvery == 0

end Workload

structure WorkloadEngine where
  workload : Workload
  dispatcher : Dispatcher Journal
  logger : Logger

structure Worker where
  place : Place
  guard : Option UserGuard
  made : Nat
  current : Option Invocation

structure Progress where
  world : World Journal
  workers : List Worker
  succeeded : Nat
  failed : Nat

inductive WorkloadEvent
  | opened
  | turn (worker : Nat)
  | closed (round : Nat)

/-- The work that comes before an event: that of the call which it closes. -/
def Progress.work (p : Progress) : WorkloadEvent → UInt64
  | .turn index =>
    match p.workers[index]? with
    | some { current := some _, made := call, .. } => Workload.checksum call
    | _ => 0
  | _ => 0

namespace WorkloadEngine

def start (w : World Journal) : Progress := ⟨w, [], 0, 0⟩

def enter (worker : Nat) (w : World Journal) : Worker × World Journal :=
  let (place, w) := World.enterThread w
  match Workload.user? worker with
  | none => (⟨place, none, 0, none⟩, w)
  | some user =>
    let (guard, users) := w.users.enter place.thread user
    (⟨place, some guard, 0, none⟩, { w with users })

def leave (worker : Worker) (w : World Journal) : World Journal :=
  let w := match worker.guard with
    | some guard => { w with users := w.users.drop worker.place.thread guard }
    | none => w
  World.leaveThread worker.place w

/-- Begins a call: odd workers make requests, even ones make plain calls. -/
def beginCall (e : WorkloadEngine) (index : Nat) (worker : Worker) (operation : OperationName)
    (w : World Journal) : Invocation × World Journal :=
  if index % 2 = 1 then
    let ((type, operation), w) := e.dispatcher.requestKeys "get" ("/" ++ operation.text) w
    e.dispatcher.begin worker.place type operation w
  else e.dispatcher.begin worker.place .rpc operation w

def turn (e : WorkloadEngine) (index : Nat) (p : Progress) : Progress :=
  match p.workers[index]? with
  | none => p
  | some worker =>
    match worker.current with
    | some call =>
      let fails := e.workload.fails worker.made
      let ending := if fails then Ending.failed else .succeeded
      { p with
        world := e.dispatcher.close worker.place call ending p.world
        workers := p.workers.set index { worker with made := worker.made + 1, current := none }
        succeeded := p.succeeded + (if fails then 0 else 1)
        failed := p.failed + (if fails then 1 else 0) }
    | none =>
      if worker.made < e.workload.calls then
        match e.workload.operation? index worker.made with
        | none =>
          { p with workers := p.workers.set index { worker with made := worker.made + 1 } }
        | some operation =>
          let (call, w) := e.beginCall index worker operation p.world
          { p with
            world := w
            workers := p.workers.set index { worker with current := some call } }
      else p

def enterAll : List Nat → World Journal → List Worker × World Journal
  | [], w => ([], w)
  | index :: rest, w =>
    let (worker, w) := enter index w
    let (workers, w) := enterAll rest w
    (worker :: workers, w)

def openRound (e : WorkloadEngine) (p : Progress) : Progress :=
  let (workers, w) := enterAll (List.range e.workload.workers) p.world
  { p with world := w, workers }

/-- Ends a round: the readings become a snapshot, and one that collides is logged. -/
def closeRound (e : WorkloadEngine) (round : Nat) (p : Progress) : Progress :=
  let w := p.workers.foldl (fun w worker => leave worker w) p.world
  let (rows, w) := e.dispatcher.client.readings w
  let (result, history) := w.history.push w.clock.wall rows
  let w := { w with history }
  let w := match result with
    | .ok _ => w
    | .error collision => w.logged e.logger
      (.ofFailure .warn "simulate.history_push_failed"
        (collision.toFailure.note "round" (toString round)))
  { p with world := w, workers := [] }

def event (e : WorkloadEngine) (p : Progress) : WorkloadEvent → Progress
  | .opened => e.openRound p
  | .turn worker => e.turn worker p
  | .closed round => e.closeRound round p

/-- The turns of a round: those of the schedule, then all that are left, worker by worker. -/
def turns (e : WorkloadEngine) (schedule : List Nat) : List Nat :=
  schedule ++ (List.range e.workload.workers).flatMap fun worker =>
    List.replicate (2 * e.workload.calls) worker

/-- The events of all rounds, each with a schedule of its own. -/
def events (e : WorkloadEngine) (schedule : Nat → List Nat) : List WorkloadEvent :=
  (List.range e.workload.rounds).flatMap fun round =>
    .opened :: (e.turns (schedule round)).map .turn ++ [.closed round]

def run (e : WorkloadEngine) (schedule : Nat → List Nat) (p : Progress) : Progress :=
  (e.events schedule).foldl e.event p

end WorkloadEngine
end CallMetrics
