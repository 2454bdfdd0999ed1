import CallMetrics.Proofs.Calls.Session

/-! Strands that share one context. Their calls share one stack, and a call that ends takes the
frame that was opened last, whichever call opened it. A schedule tells the frames that its calls
take (`Overlap`), and its calls keep their own time just if each that gives a value takes a frame of
its own operation that measures the same time (`timedAll_iff`). -/

namespace CallMetrics
variable {σ ι : Type}

namespace CallSketch

def frame (component : ComponentKey) (c : CallSketch) : Frame :=
  .opened (operationKey component c.type c.operation).text c.begun

/-- A call that takes a frame when it ends gets its own time from it. -/
def TimedBy (c f : CallSketch) (now : Clock) : Prop :=
  f.type = c.type ∧ f.operation = c.operation ∧
    span f.begun.wall now.wall = span c.begun.wall now.wall

instance (c f : CallSketch) (now : Clock) : Decidable (c.TimedBy f now) :=
  inferInstanceAs (Decidable (_ ∧ _))

end CallSketch

/-- The calls that run, the latest to begin first, and the calls whose frames are open, the
innermost first. -/
structure Overlap (ι : Type) where
  running : List (ι × CallSketch)
  frames : List CallSketch

namespace Overlap
variable [DecidableEq ι]

def newest (o : Overlap ι) (i : ι) : Option CallSketch :=
  (o.running.find? (·.1 = i)).map (·.2)

def step (o : Overlap ι) (e : CallEvent ι) : Overlap ι :=
  match e.step with
  | .begin type operation =>
    let c : CallSketch := ⟨type, operation, e.now⟩
    ⟨(e.strand, c) :: o.running, c :: o.frames⟩
  | .finish _ =>
    match o.newest e.strand with
    | some _ => ⟨o.running.eraseP (·.1 = e.strand), o.frames.tail⟩
    | none => o

/-- Where a step ends a call with a value, the call gets its own time. -/
def timed (o : Overlap ι) (e : CallEvent ι) : Bool :=
  match e.step, o.newest e.strand, o.frames with
  | .finish .succeeded, some c, f :: _ => c.TimedBy f e.now
  | .finish .succeeded, some _, [] => false
  | _, _, _ => true

def timedAll (o : Overlap ι) : List (CallEvent ι) → Bool
  | [] => true
  | e :: rest => o.timed e && (o.step e).timedAll rest

/-- Of the calls that run, the one that began last ends first. -/
def lastEndsFirst (o : Overlap ι) : List (CallEvent ι) → Prop
  | [] => True
  | e :: rest => (∀ ending, e.step = .finish ending → ∃ c others, o.running = (e.strand, c) :: others)
      ∧ (o.step e).lastEndsFirst rest

/-- Where calls nest across the strands, the innermost frame is that of the call that ends. -/
theorem timedAll_of_lastEndsFirst {o : Overlap ι} (hframes : o.frames = o.running.map (·.2))
    {events : List (CallEvent ι)} (h : o.lastEndsFirst events) : o.timedAll events = true := by
  induction events generalizing o with
  | nil => rfl
  | cons e rest ih =>
    obtain ⟨hlast, hrest⟩ := h
    obtain ⟨i, now, step⟩ := e
    rw [timedAll, Bool.and_eq_true]
    cases step with
    | begin type operation =>
      refine ⟨rfl, ih ?_ hrest⟩
      simp only [Overlap.step, hframes, List.map_cons]
    | finish ending =>
      obtain ⟨c, others, hrunning⟩ := hlast ending rfl
      rw [hrunning, List.map_cons] at hframes
      have hnewest : o.newest i = some c := by simp [newest, hrunning]
      refine ⟨?_, ih ?_ hrest⟩
      · cases ending <;> simp [timed, hnewest, hframes, CallSketch.TimedBy]
      · simp only [Overlap.step, hnewest]
        simp [hrunning, hframes]

end Overlap

/-- A call that gave a value got a reading, which shows the time between its beginning and end. -/
def FinishedCall.KeepsTime (e : FinishedCall ι) : Prop :=
  e.ending = .succeeded →
    ∃ r, e.reading = some r ∧ r.elapsedMillis = span e.begun.wall e.ended.wall

/-- An overlap tells the calls that run in a session and the frames that they opened. -/
structure Overlap.Shows (d : Dispatcher σ) (p : Place) (w : World σ) (o : Overlap ι)
    (s : Session ι σ) : Prop where
  component : s.world.dispatch.component = w.dispatch.component
  running : o.running = s.running.map fun c => (c.strand, c.sketch)
  keys : ∀ c ∈ s.running,
    c.call.keys.operation = operationKey w.dispatch.component c.call.type c.operation
  stack : d.stack p s.world = o.frames.map (CallSketch.frame w.dispatch.component) ++ d.stack p w
  length : o.frames.length = o.running.length

namespace Overlap
variable {d : Dispatcher σ} {p : Place} {w : World σ} {o : Overlap ι}
  {s : Session ι σ}

theorem shows_start (d : Dispatcher σ) (p : Place) (w : World σ) :
    Shows d p w ⟨[], []⟩ (Session.start w : Session ι σ) :=
  ⟨rfl, rfl, by simp [Session.start], rfl, rfl⟩

theorem Shows.begin (h : o.Shows d p w s) (i : ι) (now : Clock) (type : CallType)
    (operation : OperationName) :
    Shows d p w ⟨(i, ⟨type, operation, now⟩) :: o.running, ⟨type, operation, now⟩ :: o.frames⟩
      (s.begin d (fun _ => p) i now type operation) := by
  have hbegun := d.begun_begin p type operation (s.worldAt now)
  rw [Session.begin_eq]
  generalize (d.begin p type operation (s.worldAt now)).2 = entered at *
  have hcomponent : (s.worldAt now).dispatch.component = w.dispatch.component := h.component
  have hstack : d.stack p (s.worldAt now) = _ := h.stack
  refine ⟨hbegun.component.trans hcomponent, ?_, fun c hc => ?_, ?_, congrArg (· + 1) h.length⟩
  · rw [h.running]
    rfl
  · rcases List.mem_cons.1 hc with rfl | hc
    · rw [← hcomponent]
      rfl
    · exact h.keys c hc
  · rw [hbegun.stack, hstack, hcomponent]
    rfl

/-- Ending a call reads the time of the innermost frame if that is of the call's own operation. -/
theorem Shows.reading (h : o.Shows d p w s) {c : RunningCall ι} (hc : c ∈ s.running)
    {f : CallSketch} {rest : List CallSketch} (hframes : o.frames = f :: rest) (now : Clock) :
    d.reading p c.call (s.worldAt now) =
      if f.type = c.call.type ∧ f.operation = c.operation then some (.between f.begun now)
      else none := by
  have hstack : d.stack p (s.worldAt now) = _ := h.stack
  rw [d.reading_eq, hstack, hframes, h.keys c hc, List.map_cons, List.cons_append, endFrame]
  by_cases hkey : f.type = c.call.type ∧ f.operation = c.operation
  · have htext : (operationKey w.dispatch.component f.type f.operation).text =
        (operationKey w.dispatch.component c.call.type c.operation).text :=
      congrArg MetricKey.text (operationKey_inj.2 hkey)
    rw [if_pos hkey, CallSketch.frame, Frame.opened, if_pos htext]
    rfl
  · have htext : (operationKey w.dispatch.component f.type f.operation).text ≠
        (operationKey w.dispatch.component c.call.type c.operation).text :=
      fun h => hkey (operationKey_inj.1 (MetricKey.eq_of_text h))
    rw [if_neg hkey, CallSketch.frame, Frame.opened, if_neg htext]
    rfl

variable [DecidableEq ι]

theorem Shows.newest (h : o.Shows d p w s) (i : ι) :
    o.newest i = (s.newest i).map (·.sketch) := by
  rw [Overlap.newest, Session.newest, h.running, List.find?_map, Option.map_map]
  rfl

/-- There are as many frames as calls that run, so a call that ends finds a frame of one of them. -/
theorem Shows.exists_frame (h : o.Shows d p w s) {i : ι} {c : RunningCall ι}
    (hnewest : s.newest i = some c) : ∃ f rest, o.frames = f :: rest := by
  obtain ⟨-, later, earlier, hrunning, -⟩ := Session.exists_of_newest hnewest
  have hlength := h.length
  rw [h.running, hrunning, List.length_map, List.length_append, List.length_cons] at hlength
  exact List.exists_cons_of_length_eq_add_one (n := later.length + earlier.length) hlength

theorem Shows.finish (h : o.Shows d p w s) (now : Clock) (ending : Ending) {c : RunningCall ι}
    (hnewest : s.newest c.strand = some c) :
    Shows d p w ⟨o.running.eraseP (·.1 = c.strand), o.frames.tail⟩
      (s.finish d (fun _ => p) now ending c) := by
  obtain ⟨f, rest, hframes⟩ := h.exists_frame hnewest
  have hc : (c.strand, c.sketch) ∈ o.running := by
    rw [h.running]
    exact List.mem_map_of_mem (List.mem_of_find?_eq_some hnewest)
  have hclosed := d.closed_close p c.call (s.worldAt now) ending
  have hstack : d.stack p (s.worldAt now) = _ := h.stack
  rw [Session.finish]
  generalize d.close p c.call ending (s.worldAt now) = left at *
  refine ⟨hclosed.component.trans h.component, ?_, fun a ha => ?_, ?_, ?_⟩
  · rw [h.running, List.eraseP_map]
    rfl
  · exact h.keys a (List.mem_of_mem_eraseP ha)
  · rw [hclosed.stack, hstack, hframes]
    rfl
  · rw [List.length_eraseP_of_mem hc (by simp), List.length_tail, h.length]

theorem Shows.step (h : o.Shows d p w s) (e : CallEvent ι) :
    (o.step e).Shows d p w (s.step d (fun _ => p) e) := by
  have hnewest := h.newest e.strand
  obtain ⟨i, now, step⟩ := e
  cases step with
  | begin type operation => exact h.begin i now type operation
  | finish ending =>
    simp only [Overlap.step, Session.step] at hnewest ⊢
    cases hc : s.newest i with
    | none =>
      rw [hc] at hnewest
      rw [hnewest]
      exact h
    | some c =>
      rw [hc] at hnewest
      rw [hnewest]
      obtain ⟨rfl, -⟩ := Session.exists_of_newest hc
      exact h.finish now ending hc

/-- The call that ends keeps its time just if its overlap says so. -/
theorem Shows.timed_iff (h : o.Shows d p w s) {i : ι} {c : RunningCall ι}
    (hnewest : s.newest i = some c) (now : Clock) (ending : Ending) :
    (s.endedCall d (fun _ => p) now ending c).KeepsTime ↔
      o.timed ⟨i, now, .finish ending⟩ = true := by
  obtain ⟨f, rest, hframes⟩ := h.exists_frame hnewest
  have hreading := h.reading (List.mem_of_find?_eq_some hnewest) hframes now
  cases ending with
  | succeeded =>
    have hsketch : o.newest i = some c.sketch := by
      rw [h.newest, hnewest]
      rfl
    have htimed : o.timed ⟨i, now, .finish .succeeded⟩ = true ↔ c.sketch.TimedBy f now := by
      simp only [Overlap.timed, hsketch, hframes, decide_eq_true_eq]
    rw [htimed, CallSketch.TimedBy, ← and_assoc]
    simp only [FinishedCall.KeepsTime, Session.endedCall, hreading, RunningCall.sketch,
      true_implies]
    by_cases hkey : f.type = c.call.type ∧ f.operation = c.operation
    · simp [hkey, TimerReading.elapsedMillis, TimerReading.between]
    · simp [hkey]
  | failed => simp [FinishedCall.KeepsTime, Session.endedCall, Overlap.timed]
  | unwound => simp [FinishedCall.KeepsTime, Session.endedCall, Overlap.timed]

/-- One step adds at most one call to those that have ended. -/
theorem Shows.timed_step (h : o.Shows d p w s) (e : CallEvent ι) :
    (∀ a ∈ (s.step d (fun _ => p) e).finished, a.KeepsTime) ↔
      (∀ a ∈ s.finished, a.KeepsTime) ∧ o.timed e = true := by
  obtain ⟨i, now, step⟩ := e
  cases step with
  | begin type operation =>
    simp only [Session.step, Session.begin_eq, Overlap.timed, and_true]
  | finish ending =>
    simp only [Session.step]
    cases hc : s.newest i with
    | none =>
      have hsketch : o.newest i = none := by
        rw [h.newest, hc]
        rfl
      cases ending <;> simp [Overlap.timed, hsketch]
    | some c =>
      rw [← h.timed_iff hc now ending]
      simp only [Session.finish, List.forall_mem_append, List.forall_mem_singleton]

theorem Shows.timedAll_iff (h : o.Shows d p w s) (events : List (CallEvent ι)) :
    (∀ a ∈ (s.run d (fun _ => p) events).finished, a.KeepsTime) ↔
      (∀ a ∈ s.finished, a.KeepsTime) ∧ o.timedAll events = true := by
  induction events generalizing s o with
  | nil => simp [Session.run, timedAll]
  | cons e rest ih =>
    rw [timedAll, Bool.and_eq_true, ← and_assoc, ← h.timed_step e]
    exact ih (h.step e)

end Overlap

/-- The steps of strands that share one context come in any order. The sink is given one block for
every call that ends, with what completing it reads off the timer. All calls that give a value show
their own time there, and no mismatch is logged, just if the overlap of the schedule says so. -/
theorem overlapping_calls_keep_time_iff [DecidableEq ι] (d : Dispatcher σ) (p : Place)
    (w : World (Observed σ)) (events : List (CallEvent ι)) :
    let s := (Session.start w).run d.observed (fun _ => p) events
    s.world.store.calls =
        w.store.calls ++ s.finished.flatMap (FinishedCall.block w.dispatch.component) ∧
      (((∀ e ∈ s.finished, e.KeepsTime) ∧
        LogGrows (fun e => e.event ≠ "timer.mismatch") w.log s.world.log) ↔
      Overlap.timedAll ⟨[], []⟩ events = true) := by
  intro s
  have hiff := (Overlap.shows_start d.observed p w).timedAll_iff events
  refine ⟨Session.sent_run (fun _ => p) d w events, fun h => (hiff.1 h.1).2, fun h => ?_⟩
  have hkept := hiff.2 ⟨by simp [Session.start], h⟩
  refine ⟨hkept, (Session.log_run d.observed (fun _ => p) w events).mono fun e he hevent => ?_⟩
  -- A mismatch would come of a call that gave a value without a reading.
  obtain ⟨a, ha, hsucceeded, hnone⟩ := he hevent
  obtain ⟨r, hr, -⟩ := hkept a ha hsucceeded
  rw [hnone] at hr
  cases hr

/-- The call that began first ends first. -/
def firstEndsFirst : List (CallEvent Bool) := [
  ⟨true, .started 0 0, .begin .rpc .unresolved⟩, ⟨false, .started 0 0, .begin .get .unresolved⟩,
  ⟨true, .started 5 0, .finish .succeeded⟩, ⟨false, .started 7 0, .finish .succeeded⟩]

theorem overlapping_calls_lose_time :
    ¬∀ e ∈ ((Session.start .quiet).run Dispatcher.quiet.observed (fun _ => ⟨0, some 0, none⟩)
      firstEndsFirst).finished, e.KeepsTime := by
  intro h
  have hshows : Overlap.Shows _ _ _ _ (Session.start .quiet : Session Bool _) :=
    Overlap.shows_start Dispatcher.quiet.observed ⟨0, some 0, none⟩ .quiet
  have htimed := ((hshows.timedAll_iff firstEndsFirst).1 h).2
  revert htimed
  decide +kernel

end CallMetrics
