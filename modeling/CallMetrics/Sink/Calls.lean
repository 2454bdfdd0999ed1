import CallMetrics.Sink.Basic

/-! The calls that a sink is given. `Sink.takeAll` hands a list of calls to a sink one after the
other, `Sink.answerAll` collects what it answers to them; an observed sink keeps the list of all calls
that it was given beside its own state and is otherwise the sink it observes. -/

namespace CallMetrics

inductive SinkCall
  | emit (e : Emission)
  | flush (key : MetricKey)
  deriving DecidableEq

namespace SinkCall

def elapsed (key : MetricKey) (millis nanos : Int64) : SinkCall :=
  .emit ⟨key, .elapsedCpu, [millis, nanos]⟩

def count (key : MetricKey) (delta : Int64) : SinkCall := .emit ⟨key, .counterDelta, [delta]⟩

def gauge (key : MetricKey) (value : Int64) : SinkCall := .emit ⟨key, .gauge, [value]⟩

end SinkCall

/-- The state of a sink with the calls that it was given, the earliest first. -/
structure Observed (σ : Type) where
  calls : List SinkCall
  inner : σ

namespace Sink
variable {σ : Type}

def answer (s : Sink σ) (stage : Stage σ) : SinkCall → Except SinkError Unit × Stage σ
  | .emit e => s.emit e stage
  | .flush key => s.flush key stage

def take (s : Sink σ) (stage : Stage σ) (call : SinkCall) : Stage σ := (s.answer stage call).2

def takeAll (s : Sink σ) (calls : List SinkCall) (stage : Stage σ) : Stage σ :=
  calls.foldl s.take stage

@[simp] theorem takeAll_nil (s : Sink σ) (stage : Stage σ) : s.takeAll [] stage = stage := rfl

@[simp] theorem takeAll_cons (s : Sink σ) (call : SinkCall) (calls : List SinkCall)
    (stage : Stage σ) : s.takeAll (call :: calls) stage = s.takeAll calls (s.take stage call) := rfl

theorem takeAll_append (s : Sink σ) (first second : List SinkCall) (stage : Stage σ) :
    s.takeAll (first ++ second) stage = s.takeAll second (s.takeAll first stage) :=
  List.foldl_append

def Still (s : Sink σ) : Prop := ∀ stage call, (s.take stage call).clock = stage.clock

theorem Still.takeAll {s : Sink σ} (h : s.Still) (calls : List SinkCall) (stage : Stage σ) :
    (s.takeAll calls stage).clock = stage.clock := by
  induction calls generalizing stage with
  | nil => rfl
  | cons call rest ih => rw [takeAll_cons, ih, h]

theorem still_discarding : (discarding : Sink σ).Still := by
  intro stage call
  cases call <;> rfl

theorem still_failing : (failing : Sink σ).Still := by
  intro stage call
  cases call <;> rfl

/-- The answers to calls that are made one after the other, each with the clocks at its time. -/
def answerAll (s : Sink σ) : List (Clock × SinkCall) → σ → List (Except SinkError Unit) × σ
  | [], store => ([], store)
  | (clock, call) :: rest, store =>
    let (answer, stage) := s.answer ⟨clock, store⟩ call
    let (answers, store) := s.answerAll rest stage.store
    (answer :: answers, store)

def observe (s : Sink σ) (call : SinkCall) (stage : Stage (Observed σ)) :
    Except SinkError Unit × Stage (Observed σ) :=
  let (result, inner) := s.answer ⟨stage.clock, stage.store.inner⟩ call
  (result, ⟨inner.clock, ⟨stage.store.calls ++ [call], inner.store⟩⟩)

def observed (s : Sink σ) : Sink (Observed σ) where
  emit e := s.observe (.emit e)
  flush key := s.observe (.flush key)

theorem take_observed (s : Sink σ) (stage : Stage (Observed σ)) (call : SinkCall) :
    s.observed.take stage call = (s.observe call stage).2 := by cases call <;> rfl

theorem calls_takeAll_observed (s : Sink σ) (calls : List SinkCall) (stage : Stage (Observed σ)) :
    (s.observed.takeAll calls stage).store.calls = stage.store.calls ++ calls := by
  induction calls generalizing stage with
  | nil => rw [takeAll_nil, List.append_nil]
  | cons call rest ih =>
    rw [takeAll_cons, ih, take_observed]
    exact List.append_assoc stage.store.calls [call] rest

theorem Still.observed {s : Sink σ} (h : s.Still) : s.observed.Still := by
  intro stage call
  rw [take_observed]
  exact h ⟨stage.clock, stage.store.inner⟩ call

end Sink
end CallMetrics
