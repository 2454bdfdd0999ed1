import CallMetrics.Proofs.Calls.Programs
import CallMetrics.Proofs.Engine.Acts

/-! What it costs to record a call. A call is timed from its beginning to the end of its body,
before anything is recorded; the time that the sink then takes for the first four recordings is the
overhead that the last two recordings tell (`succeed_eq`). -/

namespace CallMetrics
variable {σ : Type}

namespace Sink
variable {s : Sink σ} {calls : List SinkCall} {stage : Stage σ}

/-- How far calls one after another move the precise clock, summed up call by call. -/
def cost (s : Sink σ) : List SinkCall → Stage σ → Int
  | [], _ => 0
  | call :: rest, stage =>
    ((s.take stage call).clock.precise.toInt - stage.clock.precise.toInt) +
      s.cost rest (s.take stage call)

/-- None of the calls moves the precise clock back. -/
def Onward (s : Sink σ) : List SinkCall → Stage σ → Prop
  | [], _ => True
  | call :: rest, stage =>
    stage.clock.precise ≤ (s.take stage call).clock.precise ∧ s.Onward rest (s.take stage call)

instance decidableOnward (s : Sink σ) :
    (calls : List SinkCall) → (stage : Stage σ) → Decidable (s.Onward calls stage)
  | [], _ => inferInstanceAs (Decidable True)
  | call :: rest, stage =>
    have := decidableOnward s rest (s.take stage call)
    inferInstanceAs (Decidable (_ ∧ _))

theorem cost_eq (s : Sink σ) (calls : List SinkCall) (stage : Stage σ) : s.cost calls stage =
    (s.takeAll calls stage).clock.precise.toInt - stage.clock.precise.toInt := by
  induction calls generalizing stage with
  | nil => exact (Int.sub_self _).symm
  | cons call rest ih =>
    rw [cost, ih, takeAll_cons]
    omega

theorem Onward.cost_nonneg (h : s.Onward calls stage) : 0 ≤ s.cost calls stage := by
  induction calls generalizing stage with
  | nil => exact Int.le_refl 0
  | cons call rest ih =>
    have hfirst := Int64.le_iff_toInt_le.1 h.1
    have hrest := ih h.2
    rw [cost]
    omega

end Sink

/-- The time between two words that are in order, as far as it fits in a word. -/
theorem span_eq_ofIntClamp {a b : Int64} (h : 0 ≤ b.toInt - a.toInt) :
    span a b = Int64.ofIntClamp (b.toInt - a.toInt) := by
  have hmin : Int64.minValue.toInt = -2 ^ 63 := Int64.toInt_minValue
  have hmax : Int64.maxValue.toInt = 2 ^ 63 - 1 := Int64.toInt_maxValue
  rw [← Int64.toInt_inj, toInt_span, toInt_ofIntClamp]
  omega

namespace Invocation

/-- What is recorded of a call that gave a value before its overhead is known. -/
def timings (component : ComponentKey) (call : Invocation) (millis nanos : Int64) :
    List Recording :=
  [.times call.keys.operation millis (some nanos), .times call.keys.user millis (some nanos),
    .times (siteKey component call.type Reserved.total) millis (some nanos),
    .gauge (siteKey component call.type Reserved.concurrency)
      (Int64.ofIntClamp call.guard.level.toNat)]

def overheads (component : ComponentKey) (call : Invocation) (nanos : Int64) : List Recording :=
  [.sample call.keys.overhead nanos,
    .sample (siteKey component call.type Reserved.overhead) nanos]

end Invocation

def Recording.call (r : Recording) : SinkCall := .emit r.emission

namespace Client
variable (c : Client σ) (recordings : List Recording) (w : World σ)

/-- Carries out recordings one after another, each by the clock at its time. -/
def carryAll : World σ := recordings.foldl (fun w r => c.carryOut r w) w

theorem toStage_carryOut (r : Recording) :
    (c.carryOut r w).toStage = c.sink.take w.toStage r.call := c.emit_toStage _ _ _ _

theorem carryAll_append (first second : List Recording) :
    c.carryAll (first ++ second) w = c.carryAll second (c.carryAll first w) := List.foldl_append

theorem toStage_carryAll :
    (c.carryAll recordings w).toStage =
      c.sink.takeAll (recordings.map Recording.call) w.toStage := by
  induction recordings generalizing w with
  | nil => rfl
  | cons r rest ih => exact (ih (c.carryOut r w)).trans (by rw [toStage_carryOut]; rfl)

end Client

namespace Dispatcher
variable {d : Dispatcher σ} {p : Place} {call : Invocation} {w : World σ} {begun : Clock}
  {outer : List Frame}

/-- The world without the innermost section, where a call records. -/
def popped (d : Dispatcher σ) (p : Place) (call : Invocation) (w : World σ) : World σ :=
  (d.client.timer.finish p call.keys.operation.text w).2

theorem timerFinish_eq (h : d.stack p w = .opened call.keys.operation.text begun :: outer) :
    d.client.timer.finish p call.keys.operation.text w =
      (.ok (.between begun w.clock), d.popped p call w) := by
  have hend : (d.client.timer.finish p call.keys.operation.text w).1 =
      (endFrame call.keys.operation.text w.clock (d.stack p w)).1 := rfl
  rw [h, endFrame_opened] at hend
  exact Prod.ext hend rfl

theorem recordCall_eq (h : d.stack p w = .opened call.keys.operation.text begun :: outer) :
    d.recordCall p call w = d.client.carryAll (call.timings w.dispatch.component
      (span begun.wall w.clock.wall) (span begun.cpu w.clock.cpu)) (d.popped p call w) := by
  have hpopped : (d.popped p call w).dispatch = w.dispatch := rfl
  have hreading (key : MetricKey) (r : TimerReading) (w : World σ) :
      (d.client.recordReading key r w).dispatch = w.dispatch :=
    (d.client.recorded_recordReading key w r).dispatch
  simp only [recordCall, Client.finish, Client.finishAs, timerFinish_eq h, siteMetric, hreading,
    hpopped]
  rfl

/-- The overhead is what the sink costs for the recordings before it, as far as that is a word. -/
theorem overhead_eq_cost (h : d.stack p w = .opened call.keys.operation.text begun :: outer)
    {calls : List SinkCall}
    (hcalls : calls = (call.timings w.dispatch.component (span begun.wall w.clock.wall)
      (span begun.cpu w.clock.cpu)).map Recording.call)
    (honward : d.client.sink.Onward calls w.toStage) :
    d.overhead p call w = Int64.ofIntClamp (d.client.sink.cost calls w.toStage) := by
  have hstage : (d.recordCall p call w).toStage = d.client.sink.takeAll calls w.toStage := by
    rw [recordCall_eq h, Client.toStage_carryAll, hcalls]
    rfl
  have hcost := d.client.sink.cost_eq calls w.toStage
  have hnonneg := honward.cost_nonneg
  rw [overhead, hstage, hcost]
  exact span_eq_ofIntClamp (hcost ▸ hnonneg)

/-- A call that gave a value and finds its own section innermost records its times and the level of
concurrency, and then twice how long that took. -/
theorem succeed_eq (h : d.stack p w = .opened call.keys.operation.text begun :: outer) :
    d.succeed p call w = d.client.carryAll
      (call.timings w.dispatch.component (span begun.wall w.clock.wall)
        (span begun.cpu w.clock.cpu) ++
          call.overheads w.dispatch.component (d.overhead p call w)) (d.popped p call w) := by
  have hdispatch : (d.recordCall p call w).dispatch = w.dispatch :=
    (d.ended_recordCall p call w).dispatch
  have hsamples : d.succeed p call w = d.client.carryAll
      (call.overheads (d.recordCall p call w).dispatch.component (d.overhead p call w))
      (d.recordCall p call w) := rfl
  rw [Client.carryAll_append, ← recordCall_eq h, hsamples, hdispatch]

theorem close_succeeded (h : d.stack p w = .opened call.keys.operation.text begun :: outer) :
    d.close p call .succeeded w = d.release call (d.client.carryAll
      (call.timings w.dispatch.component (span begun.wall w.clock.wall)
        (span begun.cpu w.clock.cpu) ++
          call.overheads w.dispatch.component (d.overhead p call w)) (d.popped p call w)) := by
  rw [← succeed_eq h]
  rfl

theorem toStage_release (d : Dispatcher σ) (call : Invocation) (w : World σ) :
    (d.release call w).toStage =
      d.client.sink.takeAll [.flush call.keys.operation, .flush call.keys.user] w.toStage := by
  have hflushed := d.client.flush_toStage call.keys.operation w
  have hreleased := d.client.flush_toStage call.keys.user (d.client.flush call.keys.operation w)
  rw [Sink.takeAll_cons, ← hflushed]
  exact hreleased

/-- What the body of a call leaves as it finds it, and the clocks that it does not move back. -/
structure Kept (d : Dispatcher σ) (p : Place) (w w' : World σ) : Prop where
  stack : d.stack p w' = d.stack p w
  /-- A dispatcher has one component all the time. -/
  component : w'.dispatch.component = w.dispatch.component
  wall : w.clock.wall ≤ w'.clock.wall
  cpu : w.clock.cpu ≤ w'.clock.cpu

end Dispatcher

/-- A call that has begun: the place and the world that its body runs in. -/
structure Opening (σ : Type) where
  place : Place
  call : Invocation
  world : World σ

def Opening.of (p : Place) (begun : Invocation × World σ) : Opening σ := ⟨p, begun.1, begun.2⟩

namespace CallForm
variable (d : Dispatcher σ) (p : Place) (w : World σ)

def opening : CallForm → Opening σ
  | typed type operation => .of p (d.begin p type operation w)
  | rpc operation => .of p (d.begin p .rpc operation w)
  | request method path =>
    let (keys, w) := d.requestKeys method path w
    .of p (d.begin p keys.1 keys.2 w)
  | task type operation =>
    match p.scope with
    | some _ => .of p (d.begin p type operation w)
    | none =>
      let (inner, w) := World.enterScope p w
      .of inner (d.begin inner type operation w)

/-- The scope of a task ends with it. -/
def leave (inner : Place) (w : World σ) : CallForm → World σ
  | task _ _ => if p.scope = none then World.leaveContext inner w else w
  | _ => w

theorem run_eq {β : Type} (form : CallForm) (ending : β → Ending)
    (body : Place → World σ → β × World σ) : form.run d p ending body w =
      let opening := form.opening d p w
      let after := body opening.place opening.world
      (after.1, form.leave p opening.place
        (d.close opening.place opening.call (ending after.1) after.2)) := by
  cases form with
  | typed | rpc | request =>
    simp only [run, Dispatcher.instrumentRpc, Dispatcher.instrumentRequest, Dispatcher.instrument,
      opening, Opening.of, leave]
  | task type operation =>
    simp only [run, Dispatcher.instrumentTask, opening, leave]
    cases p.scope <;> simp [Dispatcher.instrument, Opening.of, World.inScope]

theorem toStage_leave (form : CallForm) (inner : Place) :
    (form.leave p inner w).toStage = w.toStage := by
  cases form with
  | typed | rpc | request => rfl
  | task type operation =>
    rw [leave]
    split <;> rfl

end CallForm

/-- The section of a call that has begun is innermost, begun by the clocks of the world before. -/
structure Opening.Fresh (d : Dispatcher σ) (w : World σ) (o : Opening σ) : Prop where
  stage : o.world.toStage = w.toStage
  component : o.world.dispatch.component = w.dispatch.component
  stack : ∃ outer, d.stack o.place o.world = .opened o.call.keys.operation.text w.clock :: outer

namespace Opening
variable (d : Dispatcher σ) (p : Place) (w : World σ)

theorem fresh_begin (type : CallType) (operation : OperationName) :
    (of p (d.begin p type operation w)).Fresh d w := by
  have hbegun := d.begun_begin p type operation w
  have hkey : (d.begin p type operation w).1.keys.operation =
      operationKey w.dispatch.component type operation := by
    rw [d.begin_fst]
    rfl
  generalize d.begin p type operation w = begun at *
  exact ⟨hbegun.stage, hbegun.component, d.stack p w, by rw [of, hkey]; exact hbegun.stack⟩

theorem Fresh.of_stage {d : Dispatcher σ} {w v : World σ} {o : Opening σ} (h : o.Fresh d v)
    (hstage : v.toStage = w.toStage) (hcomponent : v.dispatch.component = w.dispatch.component) :
    o.Fresh d w := by
  obtain ⟨outer, hstack⟩ := h.stack
  have hclock : v.clock = w.clock := congrArg Stage.clock hstage
  exact ⟨h.stage.trans hstage, h.component.trans hcomponent, outer, hclock ▸ hstack⟩

theorem fresh_opening (form : CallForm) : (form.opening d p w).Fresh d w := by
  cases form with
  | typed type operation => exact fresh_begin d p w type operation
  | rpc operation => exact fresh_begin d p w .rpc operation
  | request method path =>
    have haside := d.aside_requestKeys w method path
    rw [CallForm.opening]
    generalize d.requestKeys method path w = found at *
    exact (fresh_begin d p found.2 _ _).of_stage haside.stage haside.component
  | task type operation =>
    rw [CallForm.opening]
    split
    · exact fresh_begin d p w type operation
    · exact (fresh_begin d _ _ type operation).of_stage rfl rfl

end Opening
namespace CallForm
variable {d : Dispatcher σ} {p : Place} {w : World σ} {form : CallForm} {β : Type}
  {ending : β → Ending} {body : Place → World σ → β × World σ}

/-- A call that gave a value and left the stack as it found it is timed from the world before it to
the end of its body. -/
theorem run_succeeded
    (hsucceeded :
      ending (body (form.opening d p w).place (form.opening d p w).world).1 = .succeeded)
    (hkept : d.stack (form.opening d p w).place
        (body (form.opening d p w).place (form.opening d p w).world).2 =
      d.stack (form.opening d p w).place (form.opening d p w).world) :
    let opening := form.opening d p w
    let left := (body opening.place opening.world).2
    let timings := opening.call.timings left.dispatch.component (span w.clock.wall left.clock.wall)
      (span w.clock.cpu left.clock.cpu)
    (form.run d p ending body w).2 = form.leave p opening.place (d.release opening.call
        (d.client.carryAll (timings ++ opening.call.overheads left.dispatch.component
          (d.overhead opening.place opening.call left))
          (d.popped opening.place opening.call left))) ∧
      (d.client.sink.Onward (timings.map Recording.call) left.toStage →
        d.overhead opening.place opening.call left =
          Int64.ofIntClamp (d.client.sink.cost (timings.map Recording.call) left.toStage)) := by
  intro opening left timings
  obtain ⟨outer, hopened⟩ := (Opening.fresh_opening d p w form).stack
  have hstack := hkept.trans hopened
  refine ⟨?_, Dispatcher.overhead_eq_cost hstack rfl⟩
  have hrun : (form.run d p ending body w).2 = form.leave p opening.place
      (d.close opening.place opening.call (ending (body opening.place opening.world).1) left) :=
    congrArg Prod.snd (run_eq d p w form ending body)
  rw [hrun, hsucceeded, Dispatcher.close_succeeded hstack]

theorem toStage_leave_release (form : CallForm) (inner : Place) (call : Invocation)
    (recordings : List Recording) (w : World σ) :
    (form.leave p inner (d.release call (d.client.carryAll recordings w))).toStage =
      d.client.sink.takeAll (recordings.map Recording.call ++
        [.flush call.keys.operation, .flush call.keys.user]) w.toStage := by
  rw [toStage_leave, Dispatcher.toStage_release, Client.toStage_carryAll, Sink.takeAll_append]

end CallForm

/-- A dispatcher whose sink takes some time for each emission and keeps the calls it is given. -/
def Dispatcher.slow (nanos : Int64) : Dispatcher (Observed Unit) :=
  quiet.withSink (Sink.delayed nanos 0 .discarding).observed

/-- What a call of an operation without a name gives the sink. -/
def Invocation.unresolvedCalls (millis cpu overhead : Int64) : List SinkCall := [
  .elapsed ⟨"server/rpc/_invalid"⟩ millis cpu,
  .elapsed ⟨"user:anonymous/server/rpc/_invalid"⟩ millis cpu,
  .elapsed ⟨"server/rpc/_total"⟩ millis cpu, .gauge ⟨"server/rpc/_concurrency"⟩ 1,
  .gauge ⟨"server/rpc/_invalid/_overhead"⟩ overhead, .gauge ⟨"server/rpc/_overhead"⟩ overhead,
  .flush ⟨"server/rpc/_invalid"⟩, .flush ⟨"user:anonymous/server/rpc/_invalid"⟩]

theorem Opening.call_rpc (d : Dispatcher σ) (p : Place) (w : World σ) (operation : OperationName) :
    ((CallForm.rpc operation).opening d p w).call = d.nextCall p .rpc operation w := by
  simp only [CallForm.opening, Opening.of, d.begin_fst]

/-- A body that only moves the clocks keeps the stack. -/
theorem Dispatcher.kept_onClock (d : Dispatcher σ) (p : Place) (w : World σ) {tick : Clock → Clock}
    (hwall : w.clock.wall ≤ (tick w.clock).wall) (hcpu : w.clock.cpu ≤ (tick w.clock).cpu) :
    d.Kept p w (w.onClock tick) := ⟨rfl, rfl, hwall, hcpu⟩

/-- What a body that only moves the clocks leaves. -/
theorem Opening.Fresh.toStage_onClock {d : Dispatcher σ} {w : World σ} {o : Opening σ}
    (h : o.Fresh d w) (tick : Clock → Clock) :
    (o.world.onClock tick).toStage = ⟨tick w.clock, w.store⟩ :=
  congrArg (fun stage : Stage σ => Stage.mk (tick stage.clock) stage.store) h.stage

/-- A wrapped call gives a value and leaves the stack of sections as it finds it. Then the times
that it records are those that the clocks have moved while its body ran, and both samples of its
overhead are what the sink costs for the four recordings before them, each as far as it fits in a
word. Neither the time of the body nor what the sink costs for the samples and for flushing is part
of the overhead. -/
theorem recording_cost_is_overhead {β : Type} (d : Dispatcher σ) (p : Place) (form : CallForm)
    (ending : β → Ending) (body : Place → World σ → β × World σ) (w : World σ) :
    let opening := form.opening d p w
    let call := opening.call
    let left := (body opening.place opening.world).2
    let millis := Int64.ofIntClamp (left.clock.wall.toInt - w.clock.wall.toInt)
    let nanos := Int64.ofIntClamp (left.clock.cpu.toInt - w.clock.cpu.toInt)
    let timings := call.timings w.dispatch.component millis nanos
    let cost := d.client.sink.cost (timings.map Recording.call) left.toStage
    let recordings := timings ++ call.overheads w.dispatch.component (Int64.ofIntClamp cost)
    let after := (form.run d p ending body w).2
    ending (body opening.place opening.world).1 = .succeeded →
      d.Kept opening.place opening.world left →
      d.client.sink.Onward (timings.map Recording.call) left.toStage →
      after = form.leave p opening.place
        (d.release call (d.client.carryAll recordings (d.popped opening.place call left))) ∧
      after.toStage = d.client.sink.takeAll (recordings.map Recording.call ++
        [.flush call.keys.operation, .flush call.keys.user]) left.toStage := by
  intro opening call left millis nanos timings cost recordings after hsucceeded hkept honward
  have hfresh : opening.Fresh d w := Opening.fresh_opening d p w form
  have hclock : opening.world.clock = w.clock := congrArg Stage.clock hfresh.stage
  have hcomponent : left.dispatch.component = w.dispatch.component :=
    hkept.component.trans hfresh.component
  -- the clocks have not gone back, so the times fit but for the greatest ones
  have hmillis : span w.clock.wall left.clock.wall = millis := by
    have hwall := Int64.le_iff_toInt_le.1 hkept.wall
    rw [hclock] at hwall
    exact span_eq_ofIntClamp (by omega)
  have hnanos : span w.clock.cpu left.clock.cpu = nanos := by
    have hcpu := Int64.le_iff_toInt_le.1 hkept.cpu
    rw [hclock] at hcpu
    exact span_eq_ofIntClamp (by omega)
  obtain ⟨hrun, hoverhead⟩ := CallForm.run_succeeded hsucceeded hkept.stack
  rw [hcomponent, hmillis, hnanos] at hrun hoverhead
  rw [hoverhead honward] at hrun
  exact ⟨hrun, (congrArg World.toStage hrun).trans (CallForm.toStage_leave_release _ _ _ _ _)⟩

theorem recording_cost_is_overhead_slow :
    ((CallForm.rpc .unresolved).run (Dispatcher.slow 7) ⟨0, none, none⟩ id
      (fun _ w => (.succeeded, w.onClock fun now => (now.advance 5).advanceCpu 11))
      .quiet).2.store.calls = Invocation.unresolvedCalls 5 11 28 := by
  have hfresh := Opening.fresh_opening (Dispatcher.slow 7) ⟨0, none, none⟩ .quiet (.rpc .unresolved)
  have hcall := Opening.call_rpc (Dispatcher.slow 7) ⟨0, none, none⟩ .quiet .unresolved
  have h := recording_cost_is_overhead (Dispatcher.slow 7) ⟨0, none, none⟩ (.rpc .unresolved) id
    (fun _ w => (.succeeded, w.onClock fun now => (now.advance 5).advanceCpu 11)) .quiet
  dsimp only at h
  generalize (CallForm.rpc .unresolved).opening (Dispatcher.slow 7) ⟨0, none, none⟩ .quiet = opening
    at hfresh hcall h
  have hleft := hfresh.toStage_onClock fun now => (now.advance 5).advanceCpu 11
  have hclock : opening.world.clock = World.quiet.clock := congrArg Stage.clock hfresh.stage
  have hkept : (Dispatcher.slow 7).Kept opening.place opening.world
      (opening.world.onClock fun now => (now.advance 5).advanceCpu 11) :=
    Dispatcher.kept_onClock _ _ _ (by rw [hclock]; decide) (by rw [hclock]; decide)
  rw [hleft, hcall] at h
  obtain ⟨-, hstage⟩ := h rfl hkept (by decide +kernel)
  rw [congrArg (·.store.calls) hstage]
  decide +kernel

/-- The time of the four recordings is longer than the greatest word, though no clock overflows. -/
theorem overhead_stops_at_greatest_word :
    let d := Dispatcher.slow 2305843009213693952
    let w := World.started .default ⟨.started (-9223372036854) 0, ⟨[], ()⟩⟩
    let calls := Invocation.unresolvedCalls 0 0 9223372036854775807
    ((CallForm.rpc .unresolved).run d ⟨0, none, none⟩ id (fun _ w => (.succeeded, w))
        w).2.store.calls = calls ∧
      d.client.sink.Onward calls w.toStage ∧
      d.client.sink.cost (calls.take 4) w.toStage = 9223372036854775808 := by
  intro d w calls
  refine ⟨?_, by decide +kernel, by decide +kernel⟩
  have hfresh := Opening.fresh_opening d ⟨0, none, none⟩ w (.rpc .unresolved)
  have hcall := Opening.call_rpc d ⟨0, none, none⟩ w .unresolved
  have h := @CallForm.run_succeeded _ d ⟨0, none, none⟩ w (.rpc .unresolved) _ id
    fun _ w => (.succeeded, w)
  dsimp only at h
  generalize (CallForm.rpc .unresolved).opening d ⟨0, none, none⟩ w = opening at hfresh hcall h
  rw [hcall, hfresh.component, hfresh.stage] at h
  obtain ⟨hrun, hoverhead⟩ := h rfl rfl
  rw [hoverhead (by decide +kernel)] at hrun
  have hstage := congrArg World.toStage hrun
  have hpopped : (d.popped opening.place (d.nextCall ⟨0, none, none⟩ .rpc .unresolved w)
      opening.world).toStage = w.toStage := hfresh.stage
  rw [CallForm.toStage_leave_release, hpopped] at hstage
  rw [congrArg (·.store.calls) hstage]
  decide +kernel

end CallMetrics
