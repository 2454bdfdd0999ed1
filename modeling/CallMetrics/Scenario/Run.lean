import CallMetrics.Scenario.Strand

/-! What steps mean: how each runs to its end, or breaks off, and the instructions that it has in a
task. -/

namespace CallMetrics.Scenario

structure Meaning where
  run : Place → World Journal → Option Report × World Journal
  code : List Instruction

structure BodyMeaning where
  run : Place → World Journal → Option (List Report) × World Journal
  code : List Instruction

namespace BodyMeaning

def empty : BodyMeaning := ⟨fun _ w => (some [], w), []⟩

/-- After a step that breaks off no other is run, and no report is kept. -/
def cons (first : Meaning) (rest : BodyMeaning) : BodyMeaning where
  run p w :=
    match first.run p w with
    | (none, w) => (none, w)
    | (some r, w) =>
      let (rs, w) := rest.run p w
      (rs.map (r :: ·), w)
  code := first.code ++ rest.code

end BodyMeaning

namespace Meaning

def whole (run : Place → World Journal → Option Answer × World Journal) : Meaning :=
  let run (p : Place) (w : World Journal) : Option Report × World Journal :=
    match run p w with
    | (none, w) => (none, w)
    | (some answer, w) => let (r, w) := finish answer w; (some r, w)
  ⟨run, [.run run]⟩

def constant (answer : Answer) : Meaning := whole fun _ w => (some answer, w)

def failure (e : KeyError) : Meaning := constant (.failure e.toFailure)

/-- The steps of a body take turns with those of other tasks. -/
def interleaved (run : Place → World Journal → Option Answer × World Journal) (opening : Opening)
    (body : BodyMeaning) : Meaning :=
  { whole run with code := .enter opening :: body.code ++ [.leave] }

def pause : Meaning :=
  let m := constant .nothing
  { m with code := .pause :: m.code }

end Meaning

def runOpened (opening : Opening) (body : BodyMeaning) (p : Place) (w : World Journal) :
    Option Answer × World Journal :=
  let (opened, w) := opening p w
  let (reports, w) := body.run opened.place w
  opened.close reports w

/-- The opening of a body that is an answer of its own. -/
def scopeOpening (plain : Bool) (user : Option UserId) : Opening := fun p w =>
  let p := { p with user := user.orElse fun _ => p.user }
  if plain then (⟨p, fun reports w => (reports.map .body, w)⟩, w)
  else
    let (inner, w) := World.enterScope p w
    (⟨inner, fun reports w => (reports.map .body, World.leaveContext inner w)⟩, w)

namespace ScopeOptions

def readUser (o : ScopeOptions) : Except KeyError (Option UserId) :=
  match o.user with
  | none => .ok none
  | some raw => (UserId.read raw).map some

end ScopeOptions

/-- How a call with a scripted outcome ends: it is unwound if a step of its body broke off. -/
def callOutcome (scripted : Outcome Value Value) (reports : Option (List Report)) :
    Outcome Value Value :=
  if reports.isSome then scripted else .unwound

def callAnswer (scripted : Outcome Value Value) (reports : Option (List Report)) : Answer :=
  .called (reports.getD []) (callOutcome scripted reports)

namespace Engine

def callOpening (e : Engine) (type : CallType) (operation : OperationName)
    (outcome : Outcome Value Value) : Opening := fun p w =>
  let d := e.dispatcher
  let ending (reports : Option (List Report)) : Ending := (callOutcome outcome reports).ending
  match p.scope with
  | some _ =>
    let (call, w) := d.begin p type operation w
    (⟨p, fun reports w =>
      (some (callAnswer outcome reports), d.close p call (ending reports) w)⟩, w)
  | none =>
    let (inner, w) := World.enterScope p w
    let (call, w) := d.begin inner type operation w
    (⟨inner, fun reports w => (some (callAnswer outcome reports),
      World.leaveContext inner (d.close inner call (ending reports) w))⟩, w)

def call (e : Engine) (entry : Entry) (outcome : Outcome Value Value) (body : BodyMeaning) :
    Meaning :=
  let d := e.dispatcher
  let ending (reports : Option (List Report)) : Ending := (callOutcome outcome reports).ending
  let called (r : Option (List Report) × World Journal) : Option Answer × World Journal :=
    (some (callAnswer outcome r.1), r.2)
  let withNames (type operation : String) (next : CallType → OperationName → Meaning) : Meaning :=
    match CallType.read type with
    | .error err => .failure err
    | .ok type =>
      match OperationName.read operation with
      | .error err => .failure err
      | .ok operation => next type operation
  match entry with
  | .rpc type operation => withNames type operation fun _ operation =>
      .whole fun p w => called (d.instrumentRpc p operation ending (body.run p) w)
  | .typed type operation => withNames type operation fun type operation =>
      .whole fun p w => called (d.instrument p type operation ending (body.run p) w)
  | .request method path =>
      .whole fun p w => called (d.instrumentRequest p method path ending (body.run p) w)
  | .task type operation => withNames type operation fun type operation =>
      .interleaved (fun p w => called (d.instrumentTask p type operation ending body.run w))
        (e.callOpening type operation outcome) body

end Engine

def scopeMeaning (options : ScopeOptions) (body : BodyMeaning) : Meaning :=
  match options.readUser with
  | .error err => .constant (.refused err.toFailure)
  | .ok user =>
    let opening := scopeOpening options.plain user
    .interleaved (runOpened opening body) opening body

mutual

def Step.meaning (e : Engine) : Step → Meaning
  | .act a => .whole fun p w =>
    match a.run e p w with
    | none => (none, w)
    | some (answer, w) => (some answer, w)
  | .pause => .pause
  | .call entry outcome body => e.call entry outcome (bodyMeaning e body)
  | .bind user body =>
    let body := bodyMeaning e body
    match UserId.read user with
    | .error err => .failure err
    | .ok user => .whole fun p w =>
      let (reports, w) := World.withUser p user (body.run p) w
      (reports.map .body, w)
  | .scope options body => scopeMeaning options (bodyMeaning e body)
  | .thread body =>
    let body := bodyMeaning e body
    .whole fun _ w =>
      let (reports, w) := World.onThread body.run w
      (reports.map .body, w)
  | .tasks tasks =>
    let strands := taskStrands e tasks
    .whole fun p w =>
      let (answers, w) := runStrands p strands w
      (answers.map .tasks, w)

def bodyMeaning (e : Engine) : List Step → BodyMeaning
  | [] => .empty
  | s :: rest => .cons (Step.meaning e s) (bodyMeaning e rest)

def Task.strand (e : Engine) : Task → Strand
  | .mk options body =>
    let body := bodyMeaning e body
    match options.readUser with
    | .error err => .done (.refused err.toFailure)
    | .ok user =>
      .running [] (.enter (scopeOpening options.plain user) :: body.code ++ [.leave])

def taskStrands (e : Engine) : List Task → List Strand
  | [] => []
  | t :: rest => Task.strand e t :: taskStrands e rest

end

/-- The reports of a scenario that runs on the first thread, unless a step outside all calls broke
off. -/
def run (e : Engine) (steps : List Step) (w : World Journal) :
    Option (List Report) × World Journal :=
  (bodyMeaning e steps).run { thread := 0 } w

end CallMetrics.Scenario
