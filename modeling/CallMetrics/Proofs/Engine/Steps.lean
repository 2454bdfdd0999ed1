import CallMetrics.Proofs.Engine.Keys

/-! The two steps of a call. Beginning it counts it in and opens its section (`begun_begin`); ending
it takes the innermost section away, gives the sink the calls of one block and counts the call out
(`closed_close`). -/

namespace CallMetrics
variable {σ : Type}

/-- What the sink is given when a call ends. A call that gave a value is recorded with its reading,
if it has one, and with the time that recording it took. -/
def Invocation.block (component : ComponentKey) (call : Invocation) (reading : Option TimerReading)
    (overhead : Int64) : Ending → List SinkCall
  | .succeeded =>
    (match reading with
      | some r => [
        .elapsed call.keys.operation r.elapsedMillis r.cpuNanos,
        .elapsed call.keys.user r.elapsedMillis r.cpuNanos,
        .elapsed (siteKey component call.type Reserved.total) r.elapsedMillis r.cpuNanos]
      | none => []) ++ [
    .gauge (siteKey component call.type Reserved.concurrency)
      (Int64.ofIntClamp call.guard.level.toNat),
    .gauge call.keys.overhead overhead,
    .gauge (siteKey component call.type Reserved.overhead) overhead,
    .flush call.keys.operation, .flush call.keys.user]
  | .failed => [.count call.keys.errors 1, .flush call.keys.operation, .flush call.keys.user]
  | .unwound => [.flush call.keys.operation, .flush call.keys.user]

namespace Dispatcher
variable (d : Dispatcher σ) (p : Place)

/-- The stack that calls at a place open their sections on. -/
abbrev stack (w : World σ) : List Frame := w.timers.stack p.context d.client.timer.id

def nextCall (type : CallType) (operation : OperationName) (w : World σ) : Invocation where
  type := type
  keys := .of w.dispatch.component d.userPrefix (d.caller p w) type operation
  guard := (w.dispatch.inFlight type).enter.1
  id := .ofCall (w.calls + 1)

structure Begun (type : CallType) (operation : OperationName) (w w' : World σ) : Prop where
  stage : w'.toStage = w.toStage
  registries : w'.registries = w.registries
  users : w'.users = w.users
  calls : w'.calls = w.calls + 1
  component : w'.dispatch.component = w.dispatch.component
  stack : d.stack p w' =
    .opened (operationKey w.dispatch.component type operation).text w.clock :: d.stack p w
  others : ∀ c t, (c, t) ≠ (p.context, d.client.timer.id) →
    w'.timers.stack c t = w.timers.stack c t
  inFlight : ∀ t, w'.dispatch.inFlight t =
    if t = type then (w.dispatch.inFlight type).enter.2 else w.dispatch.inFlight t
  known : ∀ t, t = type ∨ (w.dispatch.site? t).isSome → (w'.dispatch.site? t).isSome
  log : LogGrows LogEvent.OfKeys w.log w'.log

section Begin
variable (type : CallType) (operation : OperationName) (w : World σ)

theorem caller_congr {w w' : World σ} (husers : w'.users = w.users) (hcalls : w'.calls = w.calls) :
    d.caller p w' = d.caller p w := by
  rw [caller, caller, husers, hcalls]

def counted : World σ :=
  setInFlight type (site type w).1.inFlight.enter.2 (site type w).2

theorem counted_inFlight (t : CallType) : (counted type w).dispatch.inFlight t =
    if t = type then (w.dispatch.inFlight type).enter.2 else w.dispatch.inFlight t := by
  unfold counted setInFlight
  rw [DispatchState.inFlight_setInFlight _ (site_known w type), site_inFlight,
    (aside_site w type).inFlight]

theorem counted_known (t : CallType) (h : t = type ∨ (w.dispatch.site? t).isSome) :
    ((counted type w).dispatch.site? t).isSome := by
  unfold counted setInFlight
  rw [DispatchState.isSome_site?_setInFlight]
  rcases h with rfl | h
  · exact site_known w t
  · exact (aside_site w type).known t h

theorem counted_component : (counted type w).dispatch.component = w.dispatch.component :=
  (DispatchState.component_setInFlight _ _ _).trans (aside_site w type).component

theorem begin_eq : d.begin p type operation w =
    let found := d.callKeys p (site type w).1.keyPrefix operation (counted type w)
    (⟨type, found.1, (site type w).1.inFlight.enter.1, .ofCall (found.2.calls + 1)⟩,
      d.client.start p found.1.operation { found.2 with calls := found.2.calls + 1 }) := by
  simp only [begin, counted]

theorem callKeys_counted :
    (d.callKeys p (site type w).1.keyPrefix operation (counted type w)).1 =
      .of w.dispatch.component d.userPrefix (d.caller p w) type operation := by
  have hsite := aside_site w type
  have hcaller : d.caller p (counted type w) = d.caller p w :=
    d.caller_congr p hsite.users hsite.calls
  rw [site_keyPrefix, ← counted_component type w, callKeys_fst, hcaller]

theorem begin_fst : (d.begin p type operation w).1 = d.nextCall p type operation w := by
  have hcalls := (d.aside_callKeys p (counted type w) operation
    (site type w).1.keyPrefix).calls.trans (aside_site w type).calls
  rw [begin_eq]
  simp only [callKeys_counted, site_inFlight, hcalls, nextCall]

theorem begun_begin : d.Begun p type operation w (d.begin p type operation w).2 := by
  have hsite := aside_site w type
  have hstage : (counted type w).toStage = w.toStage := hsite.stage
  have hregistries : (counted type w).registries = w.registries := hsite.registries
  have htimers : (counted type w).timers = w.timers := hsite.timers
  have husers : (counted type w).users = w.users := hsite.users
  have hcalls : (counted type w).calls = w.calls := hsite.calls
  have hlog : LogGrows LogEvent.OfKeys w.log (counted type w).log := hsite.log
  have hcomponent := counted_component type w
  have hinFlight := counted_inFlight type w
  have hknown := counted_known type w
  have hkeys := d.aside_callKeys p (counted type w) operation (site type w).1.keyPrefix
  rw [begin_eq]
  simp only [callKeys_counted]
  -- What is known of the worlds in between is all that counts from here on.
  generalize d.callKeys p (site type w).1.keyPrefix operation (counted type w) = found at *
  generalize counted type w = entered at *
  refine ⟨hkeys.stage.trans hstage, hkeys.registries.trans hregistries, hkeys.users.trans husers,
    congrArg (· + 1) (hkeys.calls.trans hcalls), hkeys.component.trans hcomponent, ?_,
    fun c t hne => ?_, fun t => (hkeys.inFlight t).trans (hinFlight t),
    fun t ht => hkeys.known t (hknown t ht), hlog.trans hkeys.log⟩
  · have hclock : found.2.clock = w.clock := congrArg Stage.clock (hkeys.stage.trans hstage)
    simp [Client.start, Timer.start, TimerStacks.push, stack, hkeys.timers, htimers, hclock,
      CallKeys.of]
  · simp [Client.start, Timer.start, TimerStacks.push, hkeys.timers, htimers,
      TimerStacks.stack_set, hne]

end Begin

def MismatchOnly (cond : Prop) (e : LogEvent) : Prop := e.event = "timer.mismatch" → cond

theorem MismatchOnly.ofSink {cond : Prop} {e : LogEvent} (h : e.OfSink) : MismatchOnly cond e := by
  intro he
  rcases h with h | h <;> simp [h] at he

theorem MismatchOnly.ofKeys {cond : Prop} {e : LogEvent} (h : e.OfKeys) : MismatchOnly cond e := by
  intro he
  rcases h with h | h <;> simp [h] at he

/-- What follows the end of the innermost section: the sink is given some calls, and nothing else
happens but that the log goes on. -/
structure Ended (P : LogEvent → Prop) (calls : List SinkCall) (w w' : World σ) : Prop where
  stage : w'.toStage = d.client.sink.takeAll calls w.toStage
  dispatch : w'.dispatch = w.dispatch
  users : w'.users = w.users
  calls : w'.calls = w.calls
  stack : d.stack p w' = (d.stack p w).tail
  others : ∀ c t, (c, t) ≠ (p.context, d.client.timer.id) →
    w'.timers.stack c t = w.timers.stack c t
  log : LogGrows P w.log w'.log

variable {d p}

theorem Ended.recorded {P : LogEvent → Prop} {calls : List SinkCall} {w w' w'' : World σ}
    (h : d.Ended p P calls w w') (hr : w'.Recorded P w'') (call : SinkCall)
    (hs : w''.toStage = d.client.sink.take w'.toStage call) :
    d.Ended p P (calls ++ [call]) w w'' where
  stage := by rw [hs, h.stage, Sink.takeAll_append, Sink.takeAll_cons, Sink.takeAll_nil]
  dispatch := hr.dispatch.trans h.dispatch
  users := hr.users.trans h.users
  calls := hr.calls.trans h.calls
  stack := by
    unfold Dispatcher.stack
    rw [hr.timers]
    exact h.stack
  others c t hne := by
    rw [hr.timers]
    exact h.others c t hne
  log := h.log.trans hr.log

section Records
variable {cond : Prop} {calls : List SinkCall} {w w' : World σ}

theorem Ended.reading (h : d.Ended p (MismatchOnly cond) calls w w') (key : MetricKey)
    (r : TimerReading) : d.Ended p (MismatchOnly cond)
      (calls ++ [.elapsed key r.elapsedMillis r.cpuNanos]) w (d.client.recordReading key r w') :=
  h.recorded ((d.client.recorded_recordReading key w' r).mono fun _ => .ofSink) _
    (d.client.recordReading_toStage key w' r)

theorem Ended.count (h : d.Ended p (MismatchOnly cond) calls w w') (key : MetricKey)
    (delta : Int64) : d.Ended p (MismatchOnly cond) (calls ++ [.count key delta]) w
      (d.client.recordCount key delta w') :=
  h.recorded ((d.client.recorded_recordCount key w' delta).mono fun _ => .ofSink) _
    (d.client.recordCount_toStage key w' delta)

theorem Ended.gauge (h : d.Ended p (MismatchOnly cond) calls w w') (key : MetricKey)
    (value : Int64) : d.Ended p (MismatchOnly cond) (calls ++ [.gauge key value]) w
      (d.client.recordGauge key value w') :=
  h.recorded ((d.client.recorded_recordGauge key w' value).mono fun _ => .ofSink) _
    (d.client.recordGauge_toStage key w' value)

theorem Ended.sample (h : d.Ended p (MismatchOnly cond) calls w w') (key : MetricKey)
    (value : Int64) : d.Ended p (MismatchOnly cond) (calls ++ [.gauge key value]) w
      (d.client.recordSample key value w') :=
  h.recorded ((d.client.recorded_recordSample key w' value).mono fun _ => .ofSink) _
    (d.client.recordSample_toStage key w' value)

theorem Ended.flush (h : d.Ended p (MismatchOnly cond) calls w w') (key : MetricKey) :
    d.Ended p (MismatchOnly cond) (calls ++ [.flush key]) w (d.client.flush key w') :=
  h.recorded ((d.client.recorded_flush key w').mono fun _ => .ofSink) _
    (d.client.flush_toStage key w')

theorem Ended.siteMetric {P : LogEvent → Prop} (h : d.Ended p P calls w w') (call : Invocation)
    (name : String) : siteMetric call name w' = siteKey w.dispatch.component call.type name := by
  rw [Dispatcher.siteMetric, h.dispatch]

end Records

theorem Ended.logged {P : LogEvent → Prop} {calls : List SinkCall} {w w' : World σ}
    (h : d.Ended p P calls w w') (l : Logger) {e : LogEvent} (he : P e) :
    d.Ended p P calls w (w'.logged l e) where
  stage := (w'.logged_toStage l e).trans h.stage
  dispatch := (w'.logged_dispatch l e).trans h.dispatch
  users := (w'.logged_users l e).trans h.users
  calls := (w'.logged_calls l e).trans h.calls
  stack := by
    unfold Dispatcher.stack
    rw [World.logged_timers]
    exact h.stack
  others c t hne := by
    rw [World.logged_timers]
    exact h.others c t hne
  log := h.log.trans (.logged w' l he)

variable (d p)

theorem ended_cancel (P : LogEvent → Prop) (w : World σ) :
    d.Ended p P [] w (d.client.cancel p w).2 where
  stage := rfl
  dispatch := rfl
  users := rfl
  calls := rfl
  stack := TimerStacks.stack_cancel _ _ _
  others _ _ hne := TimerStacks.stack_cancel_of_ne _ hne
  log := .refl _ _

theorem ended_timerFinish (P : LogEvent → Prop) (name : String) (w : World σ) :
    d.Ended p P [] w (d.client.timer.finish p name w).2 where
  stage := rfl
  dispatch := rfl
  users := rfl
  calls := rfl
  stack := TimerStacks.stack_finish _ _ _ _ _
  others _ _ hne := TimerStacks.stack_finish_of_ne _ hne _ _
  log := .refl _ _

section Close
variable (call : Invocation) (w : World σ)

def reading : Option TimerReading := (d.client.finish p call.keys.operation w).1

/-- How much time the records of a call take that are made before that time is recorded. -/
def overhead : Int64 := span w.clock.precise (d.recordCall p call w).clock.precise

theorem reading_eq : d.reading p call w =
    (endFrame call.keys.operation.text w.clock (d.stack p w)).1.toOption := by
  have hfst : (d.client.timer.finish p call.keys.operation.text w).1 =
      (endFrame call.keys.operation.text w.clock (d.stack p w)).1 := rfl
  rw [← hfst, reading, Client.finish, Client.finishAs]
  split
  · rename_i r w' h
    rw [h]
    rfl
  · rename_i m w' h
    rw [h]
    rfl

theorem ended_finish : d.Ended p (MismatchOnly (d.reading p call w = none))
    (match d.reading p call w with
      | some r => [.elapsed call.keys.operation r.elapsedMillis r.cpuNanos]
      | none => []) w (d.client.finish p call.keys.operation w).2 := by
  have hpop (cond : Prop) :=
    d.ended_timerFinish p (MismatchOnly cond) call.keys.operation.text w
  unfold reading Client.finish Client.finishAs
  split
  · rename_i r w' h
    rw [h] at hpop
    exact (hpop _).reading _ r
  · rename_i m w' h
    rw [h] at hpop
    exact (hpop _).logged _ fun _ => rfl

theorem ended_recordCall : d.Ended p (MismatchOnly (d.reading p call w = none))
    ((match d.reading p call w with
      | some r => [
        .elapsed call.keys.operation r.elapsedMillis r.cpuNanos,
        .elapsed call.keys.user r.elapsedMillis r.cpuNanos,
        .elapsed (siteKey w.dispatch.component call.type Reserved.total) r.elapsedMillis r.cpuNanos]
      | none => []) ++ [
      .gauge (siteKey w.dispatch.component call.type Reserved.concurrency)
        (Int64.ofIntClamp call.guard.level.toNat)]) w (d.recordCall p call w) := by
  have hfinish := d.ended_finish p call w
  unfold reading at *
  simp only [recordCall]
  generalize d.client.finish p call.keys.operation w = found at *
  obtain ⟨reading, w'⟩ := found
  cases reading with
  | none =>
    rw [← hfinish.siteMetric call Reserved.concurrency]
    exact hfinish.gauge _ _
  | some r =>
    have huser := hfinish.reading call.keys.user r
    have htotal := huser.reading (siteMetric call Reserved.total w') r
    rw [← htotal.siteMetric call Reserved.concurrency, ← hfinish.siteMetric call Reserved.total]
    exact htotal.gauge _ _

/-- The body of a call has ended in some way, and the call is neither flushed nor counted out. -/
def settle (ending : Ending) : World σ :=
  match ending with
  | .succeeded => d.succeed p call w
  | .failed => d.fail p call w
  | .unwound => d.abandon p call w

/-- A mismatch is logged only for a call that gave a value and has no reading. -/
def Misses (ending : Ending) : Prop := ending = .succeeded ∧ d.reading p call w = none

theorem ended_flushed (ending : Ending) : d.Ended p (MismatchOnly (d.Misses p call w ending))
    (call.block w.dispatch.component (d.reading p call w) (d.overhead p call w) ending) w
    (d.client.flush call.keys.user (d.client.flush call.keys.operation
      (d.settle p call w ending))) := by
  cases ending with
  | succeeded =>
    have hrecord := d.ended_recordCall p call w
    have hop := hrecord.sample call.keys.overhead (d.overhead p call w)
    have hsite := hop.sample (siteMetric call Reserved.overhead (d.recordCall p call w))
      (d.overhead p call w)
    have hflushed := (hsite.flush call.keys.operation).flush call.keys.user
    have hmisses : d.Misses p call w .succeeded = (d.reading p call w = none) := by simp [Misses]
    simp only [List.append_assoc, List.cons_append, List.nil_append] at hflushed
    rw [hmisses]
    simp only [Invocation.block]
    rw [← hrecord.siteMetric call Reserved.overhead]
    exact hflushed
  | failed =>
    have hcancel := d.ended_cancel p (MismatchOnly (d.Misses p call w .failed)) w
    exact ((hcancel.count call.keys.errors 1).flush call.keys.operation).flush call.keys.user
  | unwound =>
    have hcancel := d.ended_cancel p (MismatchOnly (d.Misses p call w .unwound)) w
    exact ((hcancel.logged _ fun he => by simp at he).flush call.keys.operation).flush call.keys.user

theorem counters_recordCall :
    (d.client.registry (d.recordCall p call w)).counters = (d.client.registry w).counters := by
  have hfinish := d.client.counters_finish p call.keys.operation w
  simp only [recordCall]
  generalize d.client.finish p call.keys.operation w = found at *
  obtain ⟨reading, w'⟩ := found
  cases reading with
  | none => exact (d.client.counters_recordGauge _ _ _).trans hfinish
  | some r =>
    simp only [Client.counters_recordGauge, Client.counters_recordReading]
    exact hfinish

def countersAfter (ending : Ending) : Dict Counter :=
  match ending with
  | .failed => ((d.client.registry w).addCount call.keys.errors 1).counters
  | _ => (d.client.registry w).counters

theorem counters_settle (ending : Ending) :
    (d.client.registry (d.settle p call w ending)).counters = d.countersAfter call w ending := by
  cases ending with
  | succeeded =>
    simp only [settle, succeed, Client.counters_recordSample, counters_recordCall, countersAfter]
  | failed =>
    simp only [settle, fail, Client.registry_recordCount, countersAfter]
    rfl
  | unwound =>
    simp only [settle, abandon, Client.registry, World.logged_registries, countersAfter]
    rfl

/-- The end of a call that gave an error adds one to the counter of its errors. -/
theorem countOf_countersAfter (ending : Ending) (key : MetricKey) :
    (((d.countersAfter call w ending).get? key.text).getD .new).value = d.client.countOf key w +
      if ending = .failed ∧ call.keys.errors = key then 1 else 0 := by
  cases ending with
  | failed =>
    simp only [countersAfter, Registry.addCount, Registry.onCounter, Dict.modify, Dict.get?_insert]
    by_cases hkey : call.keys.errors = key
    · simp [hkey, Counter.add, Client.countOf]
    · have htext : key.text ≠ call.keys.errors.text := fun h => hkey (MetricKey.eq_of_text h.symm)
      simp [hkey, htext, Client.countOf]
  | succeeded => simp [countersAfter, Client.countOf]
  | unwound => simp [countersAfter, Client.countOf]

structure Closed (ending : Ending) (w' : World σ) : Prop where
  stage : w'.toStage = d.client.sink.takeAll
    (call.block w.dispatch.component (d.reading p call w) (d.overhead p call w) ending) w.toStage
  counters : (d.client.registry w').counters = d.countersAfter call w ending
  users : w'.users = w.users
  calls : w'.calls = w.calls
  component : w'.dispatch.component = w.dispatch.component
  stack : d.stack p w' = (d.stack p w).tail
  others : ∀ c t, (c, t) ≠ (p.context, d.client.timer.id) →
    w'.timers.stack c t = w.timers.stack c t
  inFlight : (w.dispatch.site? call.type).isSome → ∀ t, w'.dispatch.inFlight t =
    if t = call.type then (w.dispatch.inFlight call.type).leave else w.dispatch.inFlight t
  known : ∀ t, (w.dispatch.site? t).isSome → (w'.dispatch.site? t).isSome
  log : LogGrows (MismatchOnly (d.Misses p call w ending)) w.log w'.log

theorem close_eq (ending : Ending) : d.close p call ending w =
    let flushed := d.client.flush call.keys.user (d.client.flush call.keys.operation
      (d.settle p call w ending))
    setInFlight call.type (flushed.dispatch.inFlight call.type).leave flushed := by
  cases ending <;> rfl

theorem closed_close (ending : Ending) :
    d.Closed p call w ending (d.close p call ending w) := by
  have hended := d.ended_flushed p call w ending
  have hcounters : (d.client.registry (d.client.flush call.keys.user
      (d.client.flush call.keys.operation (d.settle p call w ending)))).counters =
      d.countersAfter call w ending := by
    rw [Client.registry_flush, Client.registry_flush, counters_settle]
  rw [close_eq]
  generalize d.client.flush call.keys.user (d.client.flush call.keys.operation
    (d.settle p call w ending)) = flushed at *
  refine ⟨hended.stage, hcounters, hended.users, hended.calls, ?_, hended.stack, hended.others,
    fun hknown t => ?_, fun t ht => ?_, hended.log⟩
  · rw [← hended.dispatch]
    exact DispatchState.component_setInFlight _ _ _
  · rw [← hended.dispatch] at hknown ⊢
    exact DispatchState.inFlight_setInFlight _ hknown _ _
  · rw [← hended.dispatch] at ht
    exact (DispatchState.isSome_site?_setInFlight _ _ _ _).trans ht

end Close

end Dispatcher
end CallMetrics
