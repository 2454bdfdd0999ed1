import CallMetrics.Proofs.Calls.Session

/-! Strands that each run in a context of their own. The stack of a strand holds the frames of its
own calls and no others (`Apart`), so every call is timed by its own frame, whatever the other
strands do in between, and the readings of a strand follow from its own steps (`readings_run`). -/

namespace CallMetrics
variable {σ ι : Type}

/-- The calls of one strand as its own steps tell them: those that run, the latest to begin first,
and those that have ended, with the clocks at their ends. -/
structure OwnCalls where
  running : List CallSketch
  finished : List (CallSketch × Clock × Ending)

def OwnCalls.step (own : OwnCalls) (now : Clock) : CallStep → OwnCalls
  | .begin type operation => { own with running := ⟨type, operation, now⟩ :: own.running }
  | .finish ending =>
    match own.running with
    | [] => own
    | c :: rest => ⟨rest, own.finished ++ [(c, now, ending)]⟩

def OwnCalls.readings (component : ComponentKey) (own : OwnCalls) :
    List (MetricKey × Option TimerReading) :=
  (own.finished.filter (·.2.2 = .succeeded)).map fun e =>
    (operationKey component e.1.type e.1.operation, some (.between e.1.begun e.2.1))

namespace Session
variable [DecidableEq ι] (d : Dispatcher σ) (place : ι → Place)

/-- The readings that a strand gets, in the order of the ends of its calls, with the keys that they
are recorded under. -/
def readings (i : ι) (s : Session ι σ) : List (MetricKey × Option TimerReading) :=
  ((s.finished.filter (·.strand = i)).filter (·.ending = .succeeded)).map fun e =>
    (e.call.keys.operation, e.reading)

def own (i : ι) (s : Session ι σ) : OwnCalls where
  running := (s.running.filter (·.strand = i)).map (·.sketch)
  finished := (s.finished.filter (·.strand = i)).map fun e => (e.sketch, e.ended, e.ending)

theorem own_step (i : ι) (s : Session ι σ) (e : CallEvent ι) :
    (s.step d place e).own i = if e.strand = i then (s.own i).step e.now e.step else s.own i := by
  unfold step
  split
  · rename_i type operation hstep
    rw [begin_eq]
    by_cases hi : e.strand = i
    · rw [if_pos hi, hstep]
      simp [own, nextCall, hi, OwnCalls.step, RunningCall.sketch, Dispatcher.nextCall]
    · rw [if_neg hi]
      simp [own, nextCall, hi]
  · rename_i ending hstep
    split
    · rename_i c hnewest
      obtain ⟨hstrand, later, earlier, hrunning, hlater, herase⟩ := exists_of_newest hnewest
      have hown : later.filter (·.strand = e.strand) = [] := by simpa using hlater
      rw [← hstrand] at herase
      rw [finish, herase]
      by_cases hi : e.strand = i
      · rw [hi] at hown hstrand
        rw [if_pos hi, hstep]
        simp [own, endedCall, hrunning, hown, hstrand, OwnCalls.step, RunningCall.sketch]
      · rw [if_neg hi]
        simp [own, endedCall, hrunning, hstrand, hi]
    · rename_i hnewest
      have hnone : s.running.filter (·.strand = e.strand) = [] := by
        simpa [newest] using hnewest
      by_cases hi : e.strand = i
      · rw [hi] at hnone
        rw [if_pos hi, hstep]
        simp [own, hnone, OwnCalls.step]
      · rw [if_neg hi]

theorem own_run (i : ι) (events : List (CallEvent ι)) (s : Session ι σ) :
    (s.run d place events).own i =
      (events.filter (·.strand = i)).foldl (fun own e => own.step e.now e.step) (s.own i) := by
  induction events generalizing s with
  | nil => rfl
  | cons e rest ih =>
    have hstep := own_step d place i s e
    rw [run, List.foldl_cons]
    refine (ih _).trans ?_
    by_cases hi : e.strand = i
    · rw [List.filter_cons_of_pos (by simpa using hi), List.foldl_cons, hstep, if_pos hi]
    · rw [List.filter_cons_of_neg (by simpa using hi), hstep, if_neg hi]

/-- The stack of each strand holds the frames of its own calls above what it held at the start, and
the calls that have ended were timed by their own frames. -/
structure Apart (w : World σ) (s : Session ι σ) : Prop where
  stack : ∀ i, d.stack (place i) s.world =
    (s.running.filter (·.strand = i)).map (·.frame) ++ d.stack (place i) w
  timed : ∀ e ∈ s.finished, e.reading = some (.between e.begun e.ended)

section Contexts
variable {place} (hplace : Function.Injective fun i => (place i).context)
include hplace

theorem apart_run (w : World σ) (events : List (CallEvent ι)) :
    ((start w).run d place events).Apart d place w := by
  apply run_induction
  · intro s i now type operation entered h hbegun
    refine ⟨fun j => ?_, h.timed⟩
    by_cases hi : i = j
    · rw [← hi, hbegun.stack, List.filter_cons_of_pos (by simp [nextCall]), List.map_cons,
        List.cons_append, ← h.stack i]
      rfl
    · have hcontext : (place j).context ≠ (place i).context := fun hc => hi (hplace hc).symm
      rw [List.filter_cons_of_neg (by simp [nextCall, hi]), ← h.stack j]
      exact hbegun.others _ _ fun hc => hcontext (congrArg Prod.fst hc)
  · intro s now ending c later earlier left h hrunning hlater hclosed
    -- The later calls are of other strands, so the frame of this one is innermost on its stack.
    have hown : later.filter (·.strand = c.strand) = [] := by simpa using hlater
    have htop : d.stack (place c.strand) (s.worldAt now) = c.frame ::
        ((earlier.filter (·.strand = c.strand)).map (·.frame) ++ d.stack (place c.strand) w) := by
      refine (h.stack c.strand).trans ?_
      rw [hrunning, List.filter_append, hown, List.nil_append,
        List.filter_cons_of_pos (by simp), List.map_cons, List.cons_append]
    refine ⟨fun j => ?_, fun e he => ?_⟩
    · by_cases hj : c.strand = j
      · rw [← hj, hclosed.stack, htop, List.tail_cons, List.filter_append, hown, List.nil_append]
      · have hcontext : (place j).context ≠ (place c.strand).context :=
          fun hc => hj (hplace hc).symm
        refine (hclosed.others _ _ fun hc => hcontext (congrArg Prod.fst hc)).trans ?_
        refine (h.stack j).trans ?_
        rw [hrunning, List.filter_append, List.filter_append,
          List.filter_cons_of_neg (by simpa using hj)]
    · rcases List.mem_append.1 he with he | he
      · exact h.timed e he
      · obtain rfl := List.mem_singleton.1 he
        change d.reading (place c.strand) c.call (s.worldAt now) = some (.between c.begun now)
        rw [d.reading_eq, htop, RunningCall.frame, endFrame_opened]
        rfl
  · exact ⟨fun _ => rfl, by simp [start]⟩

theorem readings_run {w : World σ} (hnone : ∀ t, w.dispatch.inFlight t = .none)
    (events : List (CallEvent ι)) (i : ι) : ((start w).run d place events).readings i =
      (((start w).run d place events).own i).readings w.dispatch.component := by
  have hreading := (apart_run d hplace w events).timed
  have haccounted := accounted_run d place hnone events
  rw [readings, OwnCalls.readings, own, List.filter_map, List.map_map]
  refine List.map_congr_left fun e he => ?_
  have hmem := (List.mem_filter.1 (List.mem_filter.1 he).1).1
  obtain ⟨user, hkeys⟩ := haccounted.keys_finished hmem
  rw [hreading e hmem, hkeys]
  rfl

end Contexts

end Session

/-- The steps of strands in contexts of their own come in any order, and no call runs at the start.
Then the count of a type is at all times the number of its calls that run, which is also the level
of each call right after it began; every strand gets the readings that it gets alone; the sink is
given one block for every call that ends, with the reading between its own beginning and end; and
the errors of an operation count the calls that failed. -/
theorem interleaved_calls_accounted [DecidableEq ι] (d : Dispatcher σ) (place : ι → Place)
    (hplace : Function.Injective fun i => (place i).context) (w : World (Observed σ))
    (hnone : ∀ t, w.dispatch.inFlight t = .none) (events : List (CallEvent ι)) :
    let s := (Session.start w).run d.observed place events
    let component := w.dispatch.component
    (∀ t, (s.world.dispatch.inFlight t).count.toNat = s.count t % UInt64.size) ∧
      (∀ c ∈ s.begun, c.rank < UInt64.size → c.call.guard.level.toNat = c.rank) ∧
      (∀ i, s.readings i = ((Session.start w).run d.observed place
        (events.filter (·.strand = i))).readings i) ∧
      (s.running ++ s.finished.map (·.toRunningCall)).Perm s.begun ∧
      (∀ c ∈ s.begun, ∃ user, c.call.keys = .of component d.userPrefix user c.call.type c.operation) ∧
      s.world.store.calls = w.store.calls ++ s.finished.flatMap (fun e =>
        e.call.block component (some (.between e.begun e.ended)) e.overhead e.ending) ∧
      ∀ type operation,
        let errors := (operationKey component type operation).child Reserved.errors
        d.observed.client.countOf errors s.world = d.observed.client.countOf errors w +
          .ofNat (s.finished.countP fun e =>
            e.ending = .failed ∧ e.call.type = type ∧ e.operation = operation) := by
  intro s component
  have haccounted := Session.accounted_run d.observed place hnone events
  have hreading := (Session.apart_run d.observed hplace w events).timed
  refine ⟨fun t => ?_, haccounted.level, fun i => ?_, haccounted.perm,
    haccounted.keys, ?_, Session.errors_run d.observed place hnone events⟩
  · rw [haccounted.inFlight t, UInt64.toNat_ofNat']
  · -- With and without the other strands, the readings follow from the same steps.
    rw [Session.readings_run d.observed hplace hnone, Session.readings_run d.observed hplace hnone,
      Session.own_run, Session.own_run, List.filter_filter]
    simp only [Bool.and_self]
  · rw [Session.sent_run]
    congr 1
    refine congrArg List.flatten (List.map_congr_left fun e he => ?_)
    rw [FinishedCall.block, hreading e he]

def twoThreads (strand : Bool) : Place := ⟨strand.toNat, none, none⟩

/-- A call that succeeds while a call of the other strand runs, which then fails. -/
def twoOverlapping : List (CallEvent Bool) := [
  ⟨true, .started 0 0, .begin .rpc .unresolved⟩, ⟨false, .started 3 0, .begin .rpc .unresolved⟩,
  ⟨true, .started 5 0, .finish .succeeded⟩, ⟨false, .started 9 0, .finish .failed⟩]

theorem interleaved_calls_accounted_two :
    (Function.Injective fun i => (twoThreads i).context) ∧
      (∀ t, World.quiet.dispatch.inFlight t = .none) ∧
      ((Session.start .quiet).run Dispatcher.quiet.observed twoThreads twoOverlapping).readings true
        = [(⟨"server/rpc/_invalid"⟩, some ⟨0, 5, 0, 0⟩)] := by
  have hplace : Function.Injective fun i => (twoThreads i).context := by
    intro a b h
    cases a <;> cases b <;> first | rfl | cases h
  have hnone : ∀ t, World.quiet.dispatch.inFlight t = .none := fun _ => rfl
  refine ⟨hplace, hnone, ?_⟩
  rw [(interleaved_calls_accounted Dispatcher.quiet twoThreads hplace .quiet hnone
    twoOverlapping).2.2.1 true, Session.readings_run _ hplace hnone, Session.own_run]
  decide +kernel

end CallMetrics
