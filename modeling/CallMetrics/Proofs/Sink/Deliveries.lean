import CallMetrics.Sink.Calls
import Mathlib.Data.List.Forall2

/-! What a tree of sinks hands to its leaves. A call goes to one leaf after the other, whatever the ones
before have answered, and the first failure among the answers is the answer of the tree
(`answer_toSink`). Main statement: with its leaves noting what they are given, a tree is seen to hand
every call to each leaf once and from left to right, as the flat fan-out of the same leaves does. -/

namespace CallMetrics

/-- What a leaf was given, with its number from the left and what it answered. -/
structure Delivery where
  leaf : Nat
  call : SinkCall
  answer : Except SinkError Unit

/-- The state of sinks with what has been delivered to those that note it, the earliest first. -/
structure Noted (σ : Type) where
  deliveries : List Delivery
  inner : σ

/-- A call with what each leaf answered to it, from left to right. -/
structure Round where
  call : SinkCall
  answers : List (Except SinkError Unit)

namespace Round

def deliveries (r : Round) : List Delivery :=
  r.answers.zipIdx.map fun (answer, leaf) => ⟨leaf, r.call, answer⟩

/-- The result is a success if all answers are, and else the leftmost failure among them. -/
structure Yields (r : Round) (result : Except SinkError Unit) : Prop where
  ok_iff : result = .ok () ↔ ∀ answer ∈ r.answers, answer = .ok ()
  error_iff : ∀ e, result = .error e ↔
    ∃ left right, r.answers = left ++ .error e :: right ∧ ∀ answer ∈ left, answer = .ok ()

end Round

def firstFailure : List (Except SinkError Unit) → Except SinkError Unit
  | [] => .ok ()
  | .error e :: _ => .error e
  | .ok () :: rest => firstFailure rest

theorem firstFailure_append (first second : List (Except SinkError Unit)) :
    firstFailure (first ++ second) = firstFailure (firstFailure first :: second) := by
  induction first with
  | nil => rfl
  | cons answer rest ih =>
    cases answer with
    | error e => rfl
    | ok _ => exact ih

theorem yields_firstFailure (r : Round) : r.Yields (firstFailure r.answers) := by
  obtain ⟨call, answers⟩ := r
  induction answers with
  | nil => exact ⟨by simp [firstFailure], by simp [firstFailure]⟩
  | cons answer rest ih =>
    cases answer with
    | error e =>
      refine ⟨by simp [firstFailure], fun e' => ⟨fun h => ?_, ?_⟩⟩
      · obtain rfl : e = e' := Except.error.inj h
        exact ⟨[], rest, rfl, by simp⟩
      · rintro ⟨left, right, hsplit, hleft⟩
        cases left with
        | nil => exact (List.cons.inj hsplit).1
        | cons a left =>
          have hok := hleft a (List.mem_cons_self ..)
          rw [← (List.cons.inj hsplit).1] at hok
          cases hok
    | ok _ =>
      refine ⟨by simpa [firstFailure] using ih.ok_iff, fun e => (ih.error_iff e).trans ⟨?_, ?_⟩⟩
      · rintro ⟨left, right, hsplit, hleft⟩
        exact ⟨.ok () :: left, right, congrArg _ hsplit, by simpa using hleft⟩
      · rintro ⟨left, right, hsplit, hleft⟩
        cases left with
        | nil => cases (List.cons.inj hsplit).1
        | cons a left =>
          exact ⟨left, right, (List.cons.inj hsplit).2, fun b hb => hleft b (List.mem_cons_of_mem _ hb)⟩

namespace Sink
variable {σ : Type}

/-- Hands a call to some sinks, one after the other, and collects their answers. -/
def answers (call : SinkCall) : List (Sink σ) → Stage σ → List (Except SinkError Unit) × Stage σ
  | [], stage => ([], stage)
  | s :: rest, stage =>
    let (first, stage) := s.answer stage call
    let (others, stage) := answers call rest stage
    (first :: others, stage)

theorem answers_append (call : SinkCall) (left right : List (Sink σ)) (stage : Stage σ) :
    answers call (left ++ right) stage =
      ((answers call left stage).1 ++ (answers call right (answers call left stage).2).1,
        (answers call right (answers call left stage).2).2) := by
  induction left generalizing stage with
  | nil => rfl
  | cons s rest ih => simp only [List.cons_append, answers, ih]

theorem length_answers (call : SinkCall) (sinks : List (Sink σ)) (stage : Stage σ) :
    (answers call sinks stage).1.length = sinks.length := by
  induction sinks generalizing stage with
  | nil => rfl
  | cons s rest ih => exact congrArg Nat.succ (ih _)

theorem callAll_eq (call : SinkCall) (sinks : List (Sink σ)) (stage : Stage σ) :
    callAll (fun s stage => s.answer stage call) sinks stage =
      (firstFailure (answers call sinks stage).1, (answers call sinks stage).2) := by
  induction sinks generalizing stage with
  | nil => rfl
  | cons s rest ih =>
    simp only [callAll, answers, ih]
    cases (s.answer stage call).1 <;> rfl

theorem answer_fanout (sinks : List (Sink σ)) (stage : Stage σ) (call : SinkCall) :
    (fanout sinks).answer stage call =
      (firstFailure (answers call sinks stage).1, (answers call sinks stage).2) := by
  rw [← callAll_eq]
  cases call <;> rfl

/-- Sinks that answer every call alike are the same. -/
theorem eq_of_answer {s s' : Sink σ} (h : ∀ stage call, s.answer stage call = s'.answer stage call) :
    s = s' := by
  obtain ⟨emit, flush⟩ := s
  obtain ⟨emit', flush'⟩ := s'
  have hemit : emit = emit' := funext fun e => funext fun stage => h stage (.emit e)
  have hflush : flush = flush' := funext fun key => funext fun stage => h stage (.flush key)
  rw [hemit, hflush]

def note (s : Sink σ) (leaf : Nat) (call : SinkCall) (stage : Stage (Noted σ)) :
    Except SinkError Unit × Stage (Noted σ) :=
  let (answer, inner) := s.answer ⟨stage.clock, stage.store.inner⟩ call
  (answer, ⟨inner.clock, ⟨stage.store.deliveries ++ [⟨leaf, call, answer⟩], inner.store⟩⟩)

/-- The sink as a leaf with a number, which notes what it is given. -/
def noting (s : Sink σ) (leaf : Nat) : Sink (Noted σ) where
  emit e := s.note leaf (.emit e)
  flush key := s.note leaf (.flush key)

theorem answer_noting (s : Sink σ) (leaf : Nat) (stage : Stage (Noted σ)) (call : SinkCall) :
    (s.noting leaf).answer stage call = s.note leaf call stage := by cases call <;> rfl

/-- Noting leaves answer as the leaves do that they note for. -/
theorem answers_noting (call : SinkCall) (sinks : List (Sink σ)) (first : Nat)
    (stage : Stage (Noted σ)) :
    answers call ((sinks.zipIdx first).map fun p => p.1.noting p.2) stage =
      let plain := answers call sinks ⟨stage.clock, stage.store.inner⟩
      (plain.1, ⟨plain.2.clock, ⟨stage.store.deliveries ++
        (plain.1.zipIdx first).map (fun p => ⟨p.2, call, p.1⟩), plain.2.store⟩⟩) := by
  induction sinks generalizing first stage with
  | nil => simp [answers]
  | cons s rest ih =>
    simp only [List.zipIdx_cons, List.map_cons, answers, answer_noting, note, ih,
      List.append_assoc, List.singleton_append]

end Sink

namespace SinkTree
variable {σ : Type}

mutual

/-- The answer of a tree is the first failure among the answers of its leaves. -/
theorem answer_toSink : ∀ (t : SinkTree σ) (stage : Stage σ) (call : SinkCall),
    t.toSink.answer stage call =
      (firstFailure (Sink.answers call t.leaves stage).1, (Sink.answers call t.leaves stage).2)
  | leaf sink, stage, call => by
    simp only [toSink, leaves, Sink.answers]
    rcases sink.answer stage call with ⟨_ | _, _⟩ <;> rfl
  | fanout children, stage, call => by
    rw [toSink, leaves, Sink.answer_fanout, answers_toSinks children stage call]

theorem answers_toSinks : ∀ (children : List (SinkTree σ)) (stage : Stage σ) (call : SinkCall),
    (firstFailure (Sink.answers call (toSinks children) stage).1,
        (Sink.answers call (toSinks children) stage).2) =
      (firstFailure (Sink.answers call (leavesOfAll children) stage).1,
        (Sink.answers call (leavesOfAll children) stage).2)
  | [], _, _ => rfl
  | t :: rest, stage, call => by
    have hrest := answers_toSinks rest (Sink.answers call t.leaves stage).2 call
    rw [Prod.mk.injEq] at hrest
    simp only [toSinks, leavesOfAll, Sink.answers, Sink.answers_append, answer_toSink t,
      firstFailure_append, hrest.2]
    cases firstFailure (Sink.answers call t.leaves stage).1 with
    | error e => rfl
    | ok _ => exact congrArg (·, _) hrest.1

end

/-- However it is nested, a tree is the flat fan-out of its leaves. -/
theorem toSink_eq_fanout (t : SinkTree σ) : t.toSink = Sink.fanout t.leaves :=
  Sink.eq_of_answer fun stage call => by rw [answer_toSink, Sink.answer_fanout]

mutual

/-- The tree with leaves that note what they are given, numbered from the left. -/
def noting (first : Nat) : SinkTree σ → SinkTree (Noted σ)
  | leaf sink => leaf (sink.noting first)
  | fanout children => fanout (notingAll first children)

def notingAll (first : Nat) : List (SinkTree σ) → List (SinkTree (Noted σ))
  | [] => []
  | t :: rest => t.noting first :: notingAll (first + t.leaves.length) rest

end

mutual

theorem leaves_noting : ∀ (t : SinkTree σ) (first : Nat),
    (t.noting first).leaves = (t.leaves.zipIdx first).map fun p => p.1.noting p.2
  | leaf _, _ => rfl
  | fanout children, first => by rw [noting, leaves, leaves, leavesOfAll_notingAll children first]

theorem leavesOfAll_notingAll : ∀ (children : List (SinkTree σ)) (first : Nat),
    leavesOfAll (notingAll first children) =
      ((leavesOfAll children).zipIdx first).map fun p => p.1.noting p.2
  | [], _ => rfl
  | t :: rest, first => by
    rw [notingAll, leavesOfAll, leavesOfAll, leaves_noting t first, leavesOfAll_notingAll rest,
      List.zipIdx_append, List.map_append]

end

/-- A call to a tree is noted as the round of its leaves' answers. -/
theorem exists_round (t : SinkTree σ) (stage : Stage (Noted σ)) (call : SinkCall) :
    ∃ round : Round, round.call = call ∧ round.answers.length = t.leaves.length ∧
      let plain := t.toSink.answer ⟨stage.clock, stage.store.inner⟩ call
      round.Yields plain.1 ∧ (t.noting 0).toSink.answer stage call =
        (plain.1, ⟨plain.2.clock, ⟨stage.store.deliveries ++ round.deliveries, plain.2.store⟩⟩) := by
  let answers := (Sink.answers call t.leaves ⟨stage.clock, stage.store.inner⟩).1
  refine ⟨⟨call, answers⟩, rfl, Sink.length_answers call _ _, ?_⟩
  intro plain
  have hplain : plain.1 = firstFailure answers := congrArg Prod.fst (answer_toSink t _ call)
  refine ⟨hplain ▸ yields_firstFailure ⟨call, answers⟩, ?_⟩
  rw [answer_toSink, leaves_noting, Sink.answers_noting]
  simp only [plain, answer_toSink, Round.deliveries, answers]

/-- What is noted of a run is one round after the other. -/
theorem exists_rounds (t : SinkTree σ) (calls : List (Clock × SinkCall)) (store : Noted σ) :
    let run := (t.noting 0).toSink.answerAll calls store
    (run.1, run.2.inner) = t.toSink.answerAll calls store.inner ∧
      ∃ rounds : List Round, rounds.map (·.call) = calls.map (·.2) ∧
        (∀ round ∈ rounds, round.answers.length = t.leaves.length) ∧
        run.2.deliveries = store.deliveries ++ rounds.flatMap Round.deliveries ∧
        List.Forall₂ Round.Yields rounds run.1 := by
  induction calls generalizing store with
  | nil => exact ⟨rfl, [], rfl, by simp, by simp [Sink.answerAll], .nil⟩
  | cons step rest ih =>
    obtain ⟨clock, call⟩ := step
    obtain ⟨round, rfl, hlength, hyields, hanswer⟩ := t.exists_round ⟨clock, store⟩ call
    obtain ⟨hplain, rounds, hcalls, hlengths, hdeliveries, hall⟩ := ih
      ⟨store.deliveries ++ round.deliveries, (t.toSink.answer ⟨clock, store.inner⟩ round.call).2.store⟩
    rw [Prod.ext_iff] at hplain
    simp only [Sink.answerAll, hanswer]
    refine ⟨?_, round :: rounds, ?_, ?_, ?_, .cons hyields hall⟩
    · rw [← hplain.1, ← hplain.2]
    · rw [List.map_cons, List.map_cons, hcalls]
    · simpa [hlength] using hlengths
    · rw [hdeliveries, List.flatMap_cons, List.append_assoc]

end SinkTree

/-- Along every list of calls, a tree of sinks hands each call, as it is, once to every leaf, from left to
right, whatever the leaves before have answered; its answer is the leftmost failure, a success if there is
none. So it is the flat fan-out of its leaves. -/
theorem fanout_reaches_every_leaf {σ : Type} (t : SinkTree σ) (calls : List (Clock × SinkCall))
    (store : σ) :
    let run := (t.noting 0).toSink.answerAll calls ⟨[], store⟩
    (run.1, run.2.inner) = t.toSink.answerAll calls store ∧
      (∃ rounds : List Round, rounds.map (·.call) = calls.map (·.2) ∧
        (∀ round ∈ rounds, round.answers.length = t.leaves.length) ∧
        run.2.deliveries = rounds.flatMap Round.deliveries ∧
        List.Forall₂ Round.Yields rounds run.1) ∧
      t.toSink = Sink.fanout t.leaves := by
  obtain ⟨hplain, hrounds⟩ := t.exists_rounds calls ⟨[], store⟩
  exact ⟨hplain, by simpa using hrounds, t.toSink_eq_fanout⟩

end CallMetrics
