import CallMetrics.Scenario.Engine

/-! Tasks that take turns. A task is a strand of instructions; a poll runs it up to its next pause,
and the strands are polled in rounds until all are done. A strand pauses after each step, also after
those inside scopes and task calls, which are opened and closed by instructions of their own. Tasks
that a step of a strand starts run to their ends within that step.

Where a step of a strand breaks off, the open bodies around it are ended from the innermost one
outwards until one of them has an answer, and the strand goes on after that body. If none of them
has one, the other strands are ended too, and the step that started them breaks off. -/

namespace CallMetrics.Scenario

/-- The report of a step that has run: what was taken is taken out of the world. -/
def finish (answer : Answer) (w : World Journal) : Report × World Journal :=
  (.mk answer ⟨w.store, w.log⟩, { w with store := .empty, log := #[] })

structure Opened where
  place : Place
  /-- Ends the body with the reports of its steps, or without any if one of them broke off. A body
  that has no answer then breaks off what it is in. -/
  close : Option (List Report) → World Journal → Option Answer × World Journal

abbrev Opening := Place → World Journal → Opened × World Journal

inductive Instruction
  | run (step : Place → World Journal → Option Report × World Journal)
  | pause
  | enter (opening : Opening)
  | leave

/-- What follows the end of the innermost body; so many bodies have been begun in it. -/
def afterLeave : Nat → List Instruction → List Instruction
  | _, [] => []
  | begun, .enter _ :: code => afterLeave (begun + 1) code
  | 0, .leave :: code => code
  | begun + 1, .leave :: code => afterLeave begun code
  | begun, .run _ :: code => afterLeave begun code
  | begun, .pause :: code => afterLeave begun code

inductive Strand
  /-- The open bodies, innermost first, with the reports of their steps, latest first. -/
  | running (bodies : List (Opened × List Report)) (code : List Instruction)
  | done (answer : Answer)

def innermost (outside : Place) : List (Opened × List Report) → Place
  | [] => outside
  | (body, _) :: _ => body.place

def addReport (r : Report) : List (Opened × List Report) → List (Opened × List Report)
  | [] => []
  | (body, reports) :: outer => (body, r :: reports) :: outer

def answers? : List Strand → Option (List Answer)
  | [] => some []
  | .done a :: rest => (answers? rest).map (a :: ·)
  | .running _ _ :: _ => none

/-- Ends the innermost body and goes on with what is left after it. A body without an answer breaks
off the one around it. -/
def endBody (reports : Option (List Report)) (left : List Instruction) (w : World Journal) :
    List (Opened × List Report) → Option Strand × World Journal
  | [] => (none, w)
  | (body, _) :: outer =>
    match body.close reports w with
    | (none, w) => endBody none (afterLeave 0 left) w outer
    | (some answer, w) =>
      if outer.isEmpty then (some (.done answer), w)
      else
        let (r, w) := finish answer w
        (some (.running (addReport r outer) left), w)

def runToPause (outside : Place) (bodies : List (Opened × List Report)) (w : World Journal) :
    List Instruction → Option Strand × World Journal
  | [] => (some (.done .nothing), w)
  | .run step :: code =>
    match step (innermost outside bodies) w with
    | (some r, w) => (some (.running (addReport r bodies) code), w)
    | (none, w) => endBody none (afterLeave 0 code) w bodies
  | .pause :: code => (some (.running bodies code), w)
  | .enter opening :: code =>
    let (body, w) := opening (innermost outside bodies) w
    runToPause outside ((body, []) :: bodies) w code
  | .leave :: code => endBody (bodies.head?.map (·.2.reverse)) code w bodies

namespace Strand

def poll (outside : Place) (w : World Journal) : Strand → Option Strand × World Journal
  | done answer => (some (done answer), w)
  | running bodies code => runToPause outside bodies w code

/-- Ends the open bodies of a strand that is not polled again. -/
def abandon (w : World Journal) : Strand → World Journal
  | done _ => w
  | running bodies _ => bodies.foldl (fun w (body, _) => (body.close none w).2) w

end Strand

/-- One round; where a strand breaks off, the others are left as they are then. -/
def pollAll (outside : Place) (w : World Journal) :
    List Strand → Except (List Strand) (List Strand) × World Journal
  | [] => (.ok [], w)
  | s :: rest =>
    match s.poll outside w with
    | (none, w) => (.error rest, w)
    | (some s, w) =>
      match pollAll outside w rest with
      | (.ok rest, w) => (.ok (s :: rest), w)
      | (.error others, w) => (.error (s :: others), w)

/-- How many polls the strands take at most: a poll takes at least one instruction from a strand
that is not done, and one more poll ends a strand without instructions. -/
def pollBound : List Strand → Nat
  | [] => 0
  | .done _ :: rest => pollBound rest
  | .running _ code :: rest => code.length + 1 + pollBound rest

/-- Polls strands in rounds until all are done, for so many rounds at most. -/
def runRounds (outside : Place) :
    Nat → List Strand → World Journal → Option (List Answer) × World Journal
  | 0, _, w => (some [], w)
  | rounds + 1, strands, w =>
    match pollAll outside w strands with
    | (.error others, w) => (none, others.foldl Strand.abandon w)
    | (.ok strands, w) =>
      match answers? strands with
      | some answers => (some answers, w)
      | none => runRounds outside rounds strands w

def runStrands (outside : Place) (strands : List Strand) (w : World Journal) :
    Option (List Answer) × World Journal :=
  runRounds outside (pollBound strands + 1) strands w

end CallMetrics.Scenario
