import Mathlib.Algebra.Ring.Int.Defs
import CallMetrics.Proofs.Timing.Independent

/-! Balanced calls of one timer. When each start is closed by an end of its own name or by a cancel,
every end is answered by the clocks of its own start and of itself (`stackRun_calls_append`).
Sections that follow one another take disjoint parts of the time of the section around them, so by
clocks that do not go back they have taken no more time together than that one
(`nested_timings_consistent`). -/

namespace CallMetrics
variable {σ : Type}

/-- How a section is closed: by an end of its own name, or by a cancel. -/
inductive Closing
  | finish
  | cancel

namespace Closing

def op (name : String) : Closing → TimerOp
  | finish => .finish name
  | cancel => .cancel

def answer (begun ended : Clock) : Closing → TimerAnswer
  | finish => .finished (.ok (.between begun ended))
  | cancel => .cancelled true

end Closing

/-- Sections one after another, each with the sections inside it and the clocks at its two calls. -/
inductive Sections
  | none
  | cons (name : String) (begun : Clock) (inner : Sections) (ended : Clock) (closing : Closing)
    (rest : Sections)

namespace Sections

/-- The calls that open and close the sections, in their order. -/
def calls : Sections → List (Clock × TimerOp)
  | none => []
  | cons name begun inner ended closing rest =>
    (begun, .start name) :: (inner.calls ++ (ended, closing.op name) :: rest.calls)

def answers : Sections → List TimerAnswer
  | none => []
  | cons _ begun inner ended closing rest =>
    .done :: (inner.answers ++ closing.answer begun ended :: rest.answers)

/-- The readings of the outermost sections that are ended. -/
def readings : Sections → List TimerReading
  | none => []
  | cons _ begun _ ended .finish rest => .between begun ended :: rest.readings
  | cons _ _ _ _ .cancel rest => rest.readings

/-- All sections that are ended, in the order of their ends: the reading of each, with the readings
of the ended sections right inside it. -/
def frames : Sections → List (TimerReading × List TimerReading)
  | none => []
  | cons _ begun inner ended .finish rest =>
    inner.frames ++ (.between begun ended, inner.readings) :: rest.frames
  | cons _ _ inner _ .cancel rest => inner.frames ++ rest.frames

end Sections

def TimerAnswer.reading? : TimerAnswer → Option TimerReading
  | finished (.ok r) => some r
  | _ => none

/-- Calls of a timer at one place, each with the clock that it is made at. -/
def Timer.callAll (t : Timer) (p : Place) :
    List (Clock × TimerOp) → World σ → List TimerAnswer × World σ
  | [], w => ([], w)
  | (now, op) :: rest, w =>
    let (answer, w) := t.call p op (w.onClock fun _ => now)
    let (answers, w) := t.callAll p rest w
    (answer :: answers, w)

theorem stackRun_cons {now : Clock} {op : TimerOp} {frames frames' : List Frame}
    {answer : TimerAnswer} (h : stackStep now op frames = (answer, frames'))
    (rest : List (Clock × TimerOp)) : stackRun frames ((now, op) :: rest) =
      (answer :: (stackRun frames' rest).1, (stackRun frames' rest).2) := by
  rw [stackRun, h]

/-- The calls are answered by a stack by itself, whatever sections are open around them. -/
theorem Timer.callAll_eq_stackRun (t : Timer) (p : Place) (calls : List (Clock × TimerOp))
    (w : World σ) :
    ((t.callAll p calls w).1, (t.callAll p calls w).2.timers.stack p.context t.id) =
      stackRun (w.timers.stack p.context t.id) calls := by
  induction calls generalizing w with
  | nil => rfl
  | cons call rest ih =>
    obtain ⟨now, op⟩ := call
    have hown : stackStep now op (w.timers.stack p.context t.id) = _ :=
      (t.called p op (w.onClock fun _ => now)).own.symm
    rw [stackRun_cons hown, ← ih]
    rfl

theorem stackStep_closing (name : String) (begun ended : Clock) (closing : Closing)
    (frames : List Frame) : stackStep ended (closing.op name) (.opened name begun :: frames) =
      (closing.answer begun ended, frames) := by
  cases closing with
  | finish => exact if_pos rfl
  | cancel => rfl

namespace Sections

/-- Each end and each cancel meets the section that it closes. -/
theorem stackRun_calls_append (s : Sections) (frames : List Frame) (more : List (Clock × TimerOp)) :
    stackRun frames (s.calls ++ more) =
      (s.answers ++ (stackRun frames more).1, (stackRun frames more).2) := by
  induction s generalizing frames more with
  | none => rfl
  | cons name begun inner ended closing rest ihInner ihRest =>
    have hstart : stackStep begun (.start name) frames =
        (.done, .opened name begun :: frames) := rfl
    have hclose := stackStep_closing name begun ended closing frames
    rw [calls, List.cons_append, List.append_assoc, List.cons_append, stackRun_cons hstart, ihInner,
      stackRun_cons hclose, ihRest, answers]
    simp only [List.cons_append, List.append_assoc]

theorem stackRun_calls (s : Sections) (frames : List Frame) :
    stackRun frames s.calls = (s.answers, frames) := by
  simpa [stackRun] using s.stackRun_calls_append frames []

theorem filterMap_reading?_answers (s : Sections) :
    s.answers.filterMap TimerAnswer.reading? = s.frames.map (·.1) := by
  induction s with
  | none => rfl
  | cons name begun inner ended closing rest ihInner ihRest =>
    cases closing <;> simp [answers, frames, Closing.answer, List.filterMap_cons,
      TimerAnswer.reading?, ihInner, ihRest]

end Sections

/-- The clocks that a reading is made from. -/
inductive Meter
  | wall
  | cpu

namespace Meter

def time (m : Meter) (now : Clock) : Int64 :=
  match m with
  | wall => now.wall
  | cpu => now.cpu

def elapsed (m : Meter) (r : TimerReading) : Int64 :=
  match m with
  | wall => r.elapsedMillis
  | cpu => r.cpuNanos

/-- How far the clock has moved from the start to the end. -/
def moved (m : Meter) (r : TimerReading) : Int :=
  match m with
  | wall => r.endWall.toInt - r.startWall.toInt
  | cpu => r.endCpu.toInt - r.startCpu.toInt

theorem moved_between (m : Meter) (begun ended : Clock) :
    m.moved (.between begun ended) = (m.time ended).toInt - (m.time begun).toInt := by
  cases m <;> rfl

theorem toInt_elapsed (m : Meter) (r : TimerReading) :
    (m.elapsed r).toInt = max 0 (min (m.moved r) Int64.maxValue.toInt) := by
  cases m <;> exact toInt_span _ _

theorem elapsed_nonneg (m : Meter) (r : TimerReading) : 0 ≤ (m.elapsed r).toInt := by
  rw [toInt_elapsed]
  exact Int.le_max_left _ _

end Meter

namespace Sections
variable {m : Meter} {name : String} {begun ended : Clock} {inner rest : Sections}
  {closing : Closing}

/-- The clock does not go back from one call to a later one. -/
def Forward (m : Meter) (s : Sections) : Prop :=
  (s.calls.map fun call => m.time call.1).Pairwise (· ≤ ·)

/-- What happens inside lies between the start and the close, and what follows lies after them. -/
structure Ordered (m : Meter) (begun : Clock) (inner : Sections) (ended : Clock) (rest : Sections) :
    Prop where
  forward : inner.Forward m
  later : rest.Forward m
  through : m.time begun ≤ m.time ended
  within : ∀ call ∈ inner.calls, m.time begun ≤ m.time call.1 ∧ m.time call.1 ≤ m.time ended
  after : ∀ call ∈ rest.calls, m.time ended ≤ m.time call.1

theorem Forward.ordered (h : (cons name begun inner ended closing rest).Forward m) :
    Ordered m begun inner ended rest := by
  rw [Forward, calls, List.map_cons, List.map_append, List.map_cons, List.pairwise_cons,
    List.pairwise_append, List.pairwise_cons] at h
  obtain ⟨hbegun, hinner, ⟨hended, hrest⟩, hacross⟩ := h
  refine ⟨hinner, hrest, hbegun _ (by simp), fun call hcall => ⟨hbegun _ ?_, hacross _ ?_ _ ?_⟩,
    fun call hcall => hended _ ?_⟩
  · exact List.mem_append_left _ (List.mem_map_of_mem hcall)
  · exact List.mem_map_of_mem hcall
  · exact List.mem_cons_self
  · exact List.mem_map_of_mem hcall

/-- Sections one after another take no longer than the time that they all lie in. -/
theorem sum_readings_le {s : Sections} (h : s.Forward m) {low high : Int64} (hle : low ≤ high)
    (hwithin : ∀ call ∈ s.calls, low ≤ m.time call.1 ∧ m.time call.1 ≤ high) :
    (s.readings.map fun r => (m.elapsed r).toInt).sum ≤ high.toInt - low.toInt := by
  induction s generalizing low with
  | none =>
    have hle := Int64.le_iff_toInt_le.1 hle
    simp only [readings, List.map_nil, List.sum_nil]
    omega
  | cons name begun inner ended closing rest _ ih =>
    have hordered := h.ordered
    have hbegun : low.toInt ≤ (m.time begun).toInt :=
      Int64.le_iff_toInt_le.1 (hwithin (begun, _) List.mem_cons_self).1
    have hthrough := Int64.le_iff_toInt_le.1 hordered.through
    have hended : m.time ended ≤ high := (hwithin (ended, closing.op name) (by simp [calls])).2
    have hrest := ih hordered.later hended fun call hcall =>
      ⟨hordered.after call hcall, (hwithin call (by simp [calls, hcall])).2⟩
    cases closing with
    | finish =>
      have hown := m.toInt_elapsed (.between begun ended)
      rw [m.moved_between] at hown
      simp only [readings, List.map_cons, List.sum_cons]
      omega
    | cancel =>
      simp only [readings]
      omega

theorem sum_inner_le {s : Sections} (h : s.Forward m) :
    ∀ f ∈ s.frames, m.moved f.1 ≤ Int64.maxValue.toInt →
      (f.2.map fun r => (m.elapsed r).toInt).sum ≤ (m.elapsed f.1).toInt := by
  induction s with
  | none => simp [frames]
  | cons name begun inner ended closing rest ihInner ihRest =>
    have hordered := h.ordered
    have hinner := ihInner hordered.forward
    have hrest := ihRest hordered.later
    cases closing with
    | cancel =>
      simp only [frames, List.mem_append]
      rintro f (hf | hf)
      · exact hinner f hf
      · exact hrest f hf
    | finish =>
      simp only [frames, List.mem_append, List.mem_cons]
      rintro f (hf | rfl | hf) hfits
      · exact hinner f hf hfits
      · have hsum := sum_readings_le hordered.forward hordered.through hordered.within
        have hthrough := Int64.le_iff_toInt_le.1 hordered.through
        have hown := m.toInt_elapsed (.between begun ended)
        rw [m.moved_between] at hown hfits
        dsimp only
        omega
      · exact hrest f hf hfits

end Sections

/-- Balanced calls of one timer at one place: every end gets the reading of its own section, and the
sections that were open before are left. By a clock that never goes back the ended sections right
inside an ended section have taken no more time together than that one, if its time fits in a word;
by any clocks no time is negative. -/
theorem nested_timings_consistent (t : Timer) (p : Place) (s : Sections) (w : World σ) :
    let run := t.callAll p s.calls w
    run.1 = s.answers ∧ run.2.timers.stack p.context t.id = w.timers.stack p.context t.id ∧
    run.1.filterMap TimerAnswer.reading? = s.frames.map (·.1) ∧
    (∀ m : Meter, s.Forward m → ∀ f ∈ s.frames, m.moved f.1 ≤ Int64.maxValue.toInt →
      (f.2.map fun r => (m.elapsed r).toInt).sum ≤ (m.elapsed f.1).toInt) ∧
    ∀ r ∈ run.1.filterMap TimerAnswer.reading?, 0 ≤ r.elapsedMillis ∧ 0 ≤ r.cpuNanos := by
  intro run
  have hrun := (t.callAll_eq_stackRun p s.calls w).trans (s.stackRun_calls _)
  obtain ⟨hanswers, hstack⟩ := Prod.mk.inj hrun
  refine ⟨hanswers, hstack, ?_, fun m h => Sections.sum_inner_le h, fun r _ => ?_⟩
  · rw [← s.filterMap_reading?_answers]
    exact congrArg _ hanswers
  · exact ⟨Int64.le_iff_toInt_le.2 (Meter.wall.elapsed_nonneg r),
      Int64.le_iff_toInt_le.2 (Meter.cpu.elapsed_nonneg r)⟩

/-- Two sections inside an outer one, the second one of which is dropped with another inside it. -/
def Sections.twoInOne : Sections :=
  .cons "outer" ⟨0, 0, 0⟩
    (.cons "first" ⟨1, 0, 10⟩ .none ⟨4, 0, 20⟩ .finish
      (.cons "dropped" ⟨4, 0, 20⟩ (.cons "first" ⟨5, 0, 21⟩ .none ⟨8, 0, 29⟩ .finish .none)
        ⟨9, 0, 30⟩ .cancel .none))
    ⟨10, 0, 35⟩ .finish .none

theorem nested_timings_consistent_twoInOne :
    let run := Timer.callAll ⟨1⟩ { thread := 0 } Sections.twoInOne.calls
      (World.started .default ⟨.started 0 0, ()⟩)
    Sections.twoInOne.Forward .wall ∧
      (run.1.filterMap TimerAnswer.reading?).map (·.elapsedMillis) = [3, 3, 10] ∧
      ∀ f ∈ Sections.twoInOne.frames,
        (f.2.map fun r => r.elapsedMillis.toInt).sum ≤ f.1.elapsedMillis.toInt := by
  intro run
  obtain ⟨-, -, hreadings, hsums, -⟩ := nested_timings_consistent ⟨1⟩ { thread := 0 }
    Sections.twoInOne (World.started .default ⟨.started 0 0, ()⟩)
  have hforward : Sections.twoInOne.Forward .wall := by unfold Sections.Forward; decide
  have hfits : ∀ f ∈ Sections.twoInOne.frames, Meter.wall.moved f.1 ≤ Int64.maxValue.toInt := by
    decide +kernel
  refine ⟨hforward, ?_, fun f hf => hsums .wall hforward f hf (hfits f hf)⟩
  rw [hreadings]
  decide +kernel

end CallMetrics
