import CallMetrics.Proofs.Engine.Observed

/-! Sessions of many strands that share one dispatcher. The steps of the strands come in any order;
a strand ends the newest of its calls that run. A session keeps the calls that run and those that
have ended beside the world, so that what the dispatcher counts, records and flushes can be told
from them (`Accounted`), wherever the strands run. -/

namespace CallMetrics
variable {σ ι : Type}

inductive CallStep
  | begin (type : CallType) (operation : OperationName)
  | finish (ending : Ending)

/-- A step of a strand, with the clocks as they are then. -/
structure CallEvent (ι : Type) where
  strand : ι
  now : Clock
  step : CallStep

structure RunningCall (ι : Type) where
  strand : ι
  operation : OperationName
  call : Invocation
  begun : Clock
  /-- How many calls of its type ran right after it began. -/
  rank : Nat

/-- A call as a schedule alone tells it. -/
structure CallSketch where
  type : CallType
  operation : OperationName
  begun : Clock
  deriving DecidableEq

namespace RunningCall

def sketch (c : RunningCall ι) : CallSketch := ⟨c.call.type, c.operation, c.begun⟩

def frame (c : RunningCall ι) : Frame := .opened c.call.keys.operation.text c.begun

end RunningCall

structure FinishedCall (ι : Type) extends RunningCall ι where
  ended : Clock
  ending : Ending
  reading : Option TimerReading
  overhead : Int64

def FinishedCall.block (component : ComponentKey) (e : FinishedCall ι) : List SinkCall :=
  e.call.block component e.reading e.overhead e.ending

def typeCount (type : CallType) (calls : List (RunningCall ι)) : Nat :=
  calls.countP (·.call.type = type)

theorem typeCount_cons (t : CallType) (c : RunningCall ι) (calls : List (RunningCall ι)) :
    typeCount t (c :: calls) = typeCount t calls + if t = c.call.type then 1 else 0 := by
  rw [typeCount, List.countP_cons]
  by_cases ht : t = c.call.type
  · simp [typeCount, ht]
  · simp [typeCount, ht, Ne.symm ht]

theorem typeCount_middle (t : CallType) (c : RunningCall ι) (later earlier : List (RunningCall ι)) :
    typeCount t (later ++ c :: earlier) =
      typeCount t (later ++ earlier) + if t = c.call.type then 1 else 0 := by
  rw [← typeCount_cons]
  exact List.perm_middle.countP_eq _

structure Session (ι σ : Type) where
  world : World σ
  /-- The latest to begin first. -/
  running : List (RunningCall ι)
  /-- The earliest to end first. -/
  finished : List (FinishedCall ι)
  /-- All calls that have begun, the earliest first. -/
  begun : List (RunningCall ι)

namespace Session

def start (w : World σ) : Session ι σ := ⟨w, [], [], []⟩

/-- The world with its clocks as they are at a step. -/
def worldAt (s : Session ι σ) (now : Clock) : World σ := s.world.onClock fun _ => now

def count (s : Session ι σ) (type : CallType) : Nat := typeCount type s.running

section Step
variable (d : Dispatcher σ) (place : ι → Place)

def nextCall (i : ι) (now : Clock) (type : CallType) (operation : OperationName)
    (s : Session ι σ) : RunningCall ι :=
  ⟨i, operation, d.nextCall (place i) type operation (s.worldAt now), now, s.count type + 1⟩

def endedCall (now : Clock) (ending : Ending) (c : RunningCall ι) (s : Session ι σ) :
    FinishedCall ι :=
  ⟨c, now, ending, d.reading (place c.strand) c.call (s.worldAt now),
    d.overhead (place c.strand) c.call (s.worldAt now)⟩

def begin (i : ι) (now : Clock) (type : CallType) (operation : OperationName) (s : Session ι σ) :
    Session ι σ :=
  let r := d.begin (place i) type operation (s.worldAt now)
  let c : RunningCall ι := ⟨i, operation, r.1, now, s.count type + 1⟩
  ⟨r.2, c :: s.running, s.finished, s.begun ++ [c]⟩

theorem begin_eq (i : ι) (now : Clock) (type : CallType) (operation : OperationName)
    (s : Session ι σ) : s.begin d place i now type operation =
      ⟨(d.begin (place i) type operation (s.worldAt now)).2,
        s.nextCall d place i now type operation :: s.running, s.finished,
        s.begun ++ [s.nextCall d place i now type operation]⟩ := by
  simp only [begin, d.begin_fst, nextCall]

variable [DecidableEq ι]

def newest (s : Session ι σ) (i : ι) : Option (RunningCall ι) := s.running.find? (·.strand = i)

def finish (now : Clock) (ending : Ending) (c : RunningCall ι) (s : Session ι σ) : Session ι σ :=
  ⟨d.close (place c.strand) c.call ending (s.worldAt now),
    s.running.eraseP (·.strand = c.strand), s.finished ++ [s.endedCall d place now ending c],
    s.begun⟩

def step (s : Session ι σ) (e : CallEvent ι) : Session ι σ :=
  match e.step with
  | .begin type operation => s.begin d place e.strand e.now type operation
  | .finish ending =>
    match s.newest e.strand with
    | some c => s.finish d place e.now ending c
    -- A strand none of whose calls run has nothing to end.
    | none => s

def run (events : List (CallEvent ι)) (s : Session ι σ) : Session ι σ :=
  events.foldl (step d place) s

/-- The call that a strand ends next stands behind calls of other strands only. -/
theorem exists_of_newest {s : Session ι σ} {i : ι} {c : RunningCall ι} (h : s.newest i = some c) :
    c.strand = i ∧ ∃ later earlier, s.running = later ++ c :: earlier ∧
      (∀ a ∈ later, a.strand ≠ i) ∧ s.running.eraseP (·.strand = i) = later ++ earlier := by
  obtain ⟨hc, later, earlier, hrunning, hlater⟩ := List.find?_eq_some_iff_append.1 h
  have hstrand : c.strand = i := by simpa using hc
  have hne : ∀ a ∈ later, a.strand ≠ i := fun a ha => by simpa using hlater a ha
  refine ⟨hstrand, later, earlier, hrunning, hne, ?_⟩
  rw [hrunning, List.eraseP_append_right _ fun a ha => by simpa using hne a ha]
  simp [hstrand]

/-- What holds at the start and is kept by the beginning and by the end of a call holds in all that
follows. Of the world after a step no more is known than what such a step changes. -/
theorem run_induction {P : Session ι σ → Prop}
    (hbegin : ∀ s i now type operation entered, P s →
      d.Begun (place i) type operation (s.worldAt now) entered →
      P ⟨entered, s.nextCall d place i now type operation :: s.running, s.finished,
        s.begun ++ [s.nextCall d place i now type operation]⟩)
    (hfinish : ∀ s now ending c later earlier left, P s → s.running = later ++ c :: earlier →
      (∀ a ∈ later, a.strand ≠ c.strand) →
      d.Closed (place c.strand) c.call (s.worldAt now) ending left →
      P ⟨left, later ++ earlier, s.finished ++ [s.endedCall d place now ending c], s.begun⟩)
    (events : List (CallEvent ι)) {s : Session ι σ} (h : P s) : P (s.run d place events) := by
  -- On the steps, from the first one on: what one step reaches is where the others start.
  induction events generalizing s with
  | nil => exact h
  | cons e rest ih =>
    apply ih
    unfold step
    split
    · rw [begin_eq]
      exact hbegin s e.strand e.now _ _ _ h (d.begun_begin _ _ _ _)
    · split
      · rename_i c hnewest
        obtain ⟨hstrand, later, earlier, hrunning, hlater, herase⟩ := exists_of_newest hnewest
        rw [← hstrand] at hlater herase
        rw [finish, herase]
        exact hfinish s _ _ c later earlier _ h hrunning hlater (d.closed_close _ _ _ _)
      · exact h

end Step

/-- What a session that started in a world shows of it, wherever its strands run. -/
structure Accounted (d : Dispatcher σ) (w : World σ) (s : Session ι σ) : Prop where
  component : s.world.dispatch.component = w.dispatch.component
  known : ∀ c ∈ s.running, (s.world.dispatch.site? c.call.type).isSome
  inFlight : ∀ t, (s.world.dispatch.inFlight t).count = UInt64.ofNat (s.count t)
  level : ∀ c ∈ s.begun, c.rank < UInt64.size → c.call.guard.level.toNat = c.rank
  keys : ∀ c ∈ s.begun, ∃ user,
    c.call.keys = .of w.dispatch.component d.userPrefix user c.call.type c.operation
  perm : (s.running ++ s.finished.map (·.toRunningCall)).Perm s.begun

theorem Accounted.keys_finished {d : Dispatcher σ} {w : World σ} {s : Session ι σ}
    (h : s.Accounted d w) {e : FinishedCall ι} (he : e ∈ s.finished) : ∃ user,
    e.call.keys = .of w.dispatch.component d.userPrefix user e.call.type e.operation :=
  h.keys _ (h.perm.subset (List.mem_append_right _ (List.mem_map_of_mem he)))

theorem accounted_start {d : Dispatcher σ} {w : World σ}
    (hnone : ∀ t, w.dispatch.inFlight t = .none) : (start (ι := ι) w).Accounted d w where
  component := rfl
  known := by simp [start]
  inFlight t := congrArg InFlight.count (hnone t)
  level := by simp [start]
  keys := by simp [start]
  perm := .refl _

section Accounted
variable (d : Dispatcher σ) (place : ι → Place)

section Step
variable {d} {place} {w entered left : World σ} {s : Session ι σ} {now : Clock}

theorem Accounted.begin {i : ι} {type : CallType} {operation : OperationName}
    (h : s.Accounted d w) (hbegun : d.Begun (place i) type operation (s.worldAt now) entered) :
    Accounted d w ⟨entered, s.nextCall d place i now type operation :: s.running, s.finished,
      s.begun ++ [s.nextCall d place i now type operation]⟩ := by
  refine ⟨hbegun.component.trans h.component, fun c hc => ?_, fun t => ?_, fun c hc hrank => ?_,
    fun c hc => ?_, ?_⟩
  · rcases List.mem_cons.1 hc with rfl | hc
    · exact hbegun.known _ (.inl rfl)
    · exact hbegun.known _ (.inr (h.known c hc))
  · have hcount : typeCount t (s.nextCall d place i now type operation :: s.running) =
        s.count t + if t = type then 1 else 0 := typeCount_cons _ _ _
    refine (congrArg InFlight.count (hbegun.inFlight t)).trans ?_
    rw [count, hcount]
    by_cases ht : t = type
    · rw [if_pos ht, if_pos ht, ht]
      exact InFlight.count_enter (h.inFlight type)
    · rw [if_neg ht, if_neg ht]
      exact h.inFlight t
  · rcases List.mem_append.1 hc with hc | hc
    · exact h.level c hc hrank
    · obtain rfl := List.mem_singleton.1 hc
      exact InFlight.level_enter (h.inFlight type) hrank
  · rcases List.mem_append.1 hc with hc | hc
    · exact h.keys c hc
    · obtain rfl := List.mem_singleton.1 hc
      refine ⟨d.caller (place i) (s.worldAt now), ?_⟩
      rw [← h.component]
      rfl
  · exact (h.perm.cons _).trans (List.perm_append_singleton _ _).symm

theorem Accounted.finish {ending : Ending} {c : RunningCall ι} {later earlier : List (RunningCall ι)}
    (h : s.Accounted d w) (hrunning : s.running = later ++ c :: earlier)
    (hclosed : d.Closed (place c.strand) c.call (s.worldAt now) ending left) :
    Accounted d w
      ⟨left, later ++ earlier, s.finished ++ [s.endedCall d place now ending c], s.begun⟩ := by
  have hmem : ∀ a ∈ later ++ earlier, a ∈ s.running := by
    intro a ha
    rw [hrunning]
    exact List.mem_append.2 ((List.mem_append.1 ha).imp_right (List.mem_cons_of_mem c))
  have hc : c ∈ s.running := by simp [hrunning]
  have hperm := h.perm
  rw [hrunning] at hperm
  refine ⟨hclosed.component.trans h.component,
    fun a ha => hclosed.known _ (h.known a (hmem a ha)), fun t => ?_, h.level, h.keys, ?_⟩
  · refine (congrArg InFlight.count (hclosed.inFlight (h.known c hc) t)).trans ?_
    have ht := h.inFlight t
    rw [count, hrunning, typeCount_middle] at ht
    by_cases htype : t = c.call.type
    · rw [if_pos htype] at ht ⊢
      rw [htype] at ht ⊢
      exact InFlight.count_leave ht
    · rw [if_neg htype] at ht ⊢
      exact ht
  · -- The call moves from the middle of the running ones to the end of the finished ones.
    have hlast := List.perm_append_singleton c
      (later ++ earlier ++ s.finished.map (·.toRunningCall))
    have hmiddle : (later ++ c :: earlier).Perm (c :: (later ++ earlier)) := List.perm_middle
    rw [List.map_append, ← List.append_assoc]
    exact hlast.trans ((hmiddle.append_right _).symm.trans hperm)

end Step

variable [DecidableEq ι]

theorem accounted_run {w : World σ} (hnone : ∀ t, w.dispatch.inFlight t = .none)
    (events : List (CallEvent ι)) : ((start w).run d place events).Accounted d w :=
  run_induction d place (fun _ _ _ _ _ _ h hbegun => h.begin hbegun)
    (fun _ _ _ _ _ _ _ h hrunning _ hclosed => h.finish hrunning hclosed) events
    (accounted_start hnone)

/-- The sink is given one block for each call that has ended, in the order of their ends. -/
theorem sent_run (d : Dispatcher σ) (w : World (Observed σ)) (events : List (CallEvent ι)) :
    ((start w).run d.observed place events).world.store.calls = w.store.calls ++
      ((start w).run d.observed place events).finished.flatMap
        (FinishedCall.block w.dispatch.component) := by
  refine (run_induction d.observed place (P := fun s =>
    s.world.dispatch.component = w.dispatch.component ∧
    s.world.store.calls = w.store.calls ++ s.finished.flatMap (FinishedCall.block w.dispatch.component))
    ?_ ?_ events ⟨rfl, (List.append_nil _).symm⟩).2
  · rintro s i now type operation entered ⟨hcomponent, hsent⟩ hbegun
    refine ⟨hbegun.component.trans hcomponent, ?_⟩
    simp only [hbegun.stage]
    exact hsent
  · rintro s now ending c later earlier left ⟨hcomponent, hsent⟩ - - hclosed
    refine ⟨hclosed.component.trans hcomponent, ?_⟩
    simp only [hclosed.stage, Dispatcher.calls_takeAll, List.flatMap_append,
      List.flatMap_singleton, ← List.append_assoc]
    rw [← hsent, ← hcomponent]
    rfl

/-- A counter counts the calls that failed among those whose errors are counted under its key. -/
theorem countOf_run (w : World σ) (events : List (CallEvent ι)) (key : MetricKey) :
    d.client.countOf key ((start w).run d place events).world = d.client.countOf key w +
      .ofNat (((start w).run d place events).finished.countP fun e =>
        e.ending = .failed ∧ e.call.keys.errors = key) := by
  refine run_induction d place (P := fun s => d.client.countOf key s.world =
    d.client.countOf key w + .ofNat (s.finished.countP fun e =>
      e.ending = .failed ∧ e.call.keys.errors = key)) ?_ ?_ events (Int64.add_zero _).symm
  · intro s i now type operation entered h hbegun
    rw [← h]
    simp only [Client.countOf, Client.registry, hbegun.registries]
    rfl
  · intro s now ending c later earlier left h _ _ hclosed
    have hafter := d.countOf_countersAfter c.call (s.worldAt now) ending key
    rw [← hclosed.counters] at hafter
    refine hafter.trans ?_
    rw [List.countP_append, Int64.ofNat_add, ← Int64.add_assoc, ← h]
    congr 1
    simp only [List.countP_cons, List.countP_nil, endedCall]
    by_cases hfailed : ending = .failed ∧ c.call.keys.errors = key <;> simp [hfailed]

theorem errors_run {w : World σ} (hnone : ∀ t, w.dispatch.inFlight t = .none)
    (events : List (CallEvent ι)) (type : CallType) (operation : OperationName) :
    let errors := (operationKey w.dispatch.component type operation).child Reserved.errors
    d.client.countOf errors ((start w).run d place events).world = d.client.countOf errors w +
      .ofNat (((start w).run d place events).finished.countP fun e =>
        e.ending = .failed ∧ e.call.type = type ∧ e.operation = operation) := by
  have haccounted := accounted_run d place hnone events
  intro errors
  rw [countOf_run]
  congr 2
  refine List.countP_congr fun e he => ?_
  obtain ⟨user, hkeys⟩ := haccounted.keys_finished he
  simp only [errors, hkeys, CallKeys.of, MetricKey.child_inj, operationKey_inj]

/-- No mismatch is logged unless a call that gave a value got no reading. -/
theorem log_run (w : World σ) (events : List (CallEvent ι)) :
    LogGrows (Dispatcher.MismatchOnly (∃ e ∈ ((start w).run d place events).finished,
      e.ending = .succeeded ∧ e.reading = none)) w.log
      ((start w).run d place events).world.log := by
  refine run_induction d place (P := fun s => LogGrows (Dispatcher.MismatchOnly (∃ e ∈ s.finished,
      e.ending = .succeeded ∧ e.reading = none)) w.log s.world.log) ?_ ?_ events (.refl _ _)
  · intro s i now type operation entered h hbegun
    exact h.trans (hbegun.log.mono fun _ => .ofKeys)
  · intro s now ending c later earlier left h _ _ hclosed
    refine .trans (h.mono fun e he hevent => ?_) (hclosed.log.mono fun e he hevent => ?_)
    · obtain ⟨a, ha, hmissing⟩ := he hevent
      exact ⟨a, List.mem_append_left _ ha, hmissing⟩
    · exact ⟨_, List.mem_append_right _ (List.mem_singleton.2 rfl), he hevent⟩

end Accounted

end Session
end CallMetrics
