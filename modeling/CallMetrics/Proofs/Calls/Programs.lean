import CallMetrics.Proofs.Engine.Audit
import CallMetrics.Proofs.Engine.Observed

/-! Programs that use a dispatcher and its client, and go on with what they are given back. Main
statement: what a sink answers makes no difference to a program, nor to anything that it leaves
behind but the log. -/

namespace CallMetrics
variable {σ τ : Type}

/-- What is asked of a dispatcher or of its client in one step. -/
inductive EngineAct
  | recordTimes (key : MetricKey) (millis : Int64) (nanos : Option Int64)
  | recordReading (key : MetricKey) (r : TimerReading)
  | recordInterval (key : MetricKey) (startWall endWall : Int64)
  | recordCount (key : MetricKey) (delta : Int64)
  | setCount (key : MetricKey) (value : Int64)
  | recordGauge (key : MetricKey) (value : Int64)
  | recordSample (key : MetricKey) (value : Int64)
  | flush (key : MetricKey)
  | start (p : Place) (key : MetricKey)
  | finish (p : Place) (key : MetricKey)
  | finishAs (p : Place) (key target : MetricKey)
  | cancel (p : Place)
  | depth (p : Place)
  | readings
  | reading (key : MetricKey)
  | begin (p : Place) (type : CallType) (operation : OperationName)
  | close (p : Place) (call : Invocation) (ending : Ending)
  | inFlight (type : CallType)
  | joinStats

namespace EngineAct

def Answer : EngineAct → Type
  | finish .. | finishAs .. => Option TimerReading
  | cancel _ => Bool
  | depth _ => Nat
  | readings => List MetricReading
  | reading _ => Option MetricReading
  | begin .. => Invocation
  | inFlight _ => InFlight
  | joinStats => JoinStats
  | _ => Unit

def run (d : Dispatcher σ) (w : World σ) : (act : EngineAct) → act.Answer × World σ
  | recordTimes key millis nanos => ((), d.client.recordTimes key millis nanos w)
  | recordReading key r => ((), d.client.recordReading key r w)
  | recordInterval key startWall endWall => ((), d.client.recordInterval key startWall endWall w)
  | recordCount key delta => ((), d.client.recordCount key delta w)
  | setCount key value => ((), d.client.setCount key value w)
  | recordGauge key value => ((), d.client.recordGauge key value w)
  | recordSample key value => ((), d.client.recordSample key value w)
  | flush key => ((), d.client.flush key w)
  | start p key => ((), d.client.start p key w)
  | finish p key => d.client.finish p key w
  | finishAs p key target => d.client.finishAs p key target w
  | cancel p => d.client.cancel p w
  | depth p => (d.client.timer.depth p w, w)
  | readings => d.client.readings w
  | reading key => d.client.reading? key w
  | begin p type operation => d.begin p type operation w
  | close p call ending => ((), d.close p call ending w)
  | inFlight type => (w.dispatch.inFlight type, w)
  | joinStats => (w.dispatch.cache.stats, w)

end EngineAct

/-- The forms in which a call is wrapped. -/
inductive CallForm
  | typed (type : CallType) (operation : OperationName)
  | rpc (operation : OperationName)
  | request (method path : String)
  | task (type : CallType) (operation : OperationName)

def CallForm.run {β : Type} (d : Dispatcher σ) (p : Place) (ending : β → Ending)
    (body : Place → World σ → β × World σ) (w : World σ) : CallForm → β × World σ
  | typed type operation => d.instrument p type operation ending (body p) w
  | rpc operation => d.instrumentRpc p operation ending (body p) w
  | request method path => d.instrumentRequest p method path ending (body p) w
  | task type operation => d.instrumentTask p type operation ending body w

/-- A program that ends with a result. Between its steps the clocks may move; the body of a wrapped
call is a program too, and what it ends with tells how the call ended. So is what runs in a scope. -/
inductive Program : Type → Type 1
  | done {β : Type} (result : β) : Program β
  | move {β : Type} (tick : Clock → Clock) (rest : Program β) : Program β
  | act {β : Type} (a : EngineAct) (next : a.Answer → Program β) : Program β
  | call {β γ : Type} (form : CallForm) (p : Place) (ending : γ → Ending)
      (body : Place → Program γ) (next : γ → Program β) : Program β
  | scope {β γ : Type} (p : Place) (body : Place → Program γ) (next : γ → Program β) : Program β

namespace Program

def run (d : Dispatcher σ) {β : Type} : Program β → World σ → β × World σ
  | done result, w => (result, w)
  | move tick rest, w => rest.run d (w.onClock tick)
  | act a next, w =>
    let (answer, w) := a.run d w
    (next answer).run d w
  | call form p ending body next, w =>
    let (result, w) := form.run d p ending (fun p => (body p).run d) w
    (next result).run d w
  | scope p body next, w =>
    let (result, w) := World.inScope p (fun p => (body p).run d) w
    (next result).run d w

end Program

namespace Likeness
variable {ρ : Type} {d : Dispatcher ρ} {s : Sink σ} {s' : Sink τ} (L : Likeness d.client s s')
  {w : World σ} {w' : World τ}

theorem act (h : L.Like w w') (a : EngineAct) :
    L.Same (a.run (d.withSink s) w) (a.run (d.withSink s') w') := by
  cases a with
  | recordTimes key millis nanos => exact ⟨rfl, L.recordTimes h key millis nanos⟩
  | recordReading key r => exact ⟨rfl, L.recordReading h key r⟩
  | recordInterval key startWall endWall =>
    exact ⟨rfl, L.recordTimes h key (span startWall endWall) none⟩
  | recordCount key delta => exact ⟨rfl, L.recordCount h key delta⟩
  | setCount key value => exact ⟨rfl, L.setCount h key value⟩
  | recordGauge key value => exact ⟨rfl, L.recordGauge h key value⟩
  | recordSample key value => exact ⟨rfl, L.recordSample h key value⟩
  | flush key => exact ⟨rfl, L.flush h key⟩
  | start p key => exact ⟨rfl, L.start h p key⟩
  | finish p key => exact L.finish h p key
  | finishAs p key target => exact L.finishAs h p key target
  | cancel p => exact L.cancel h p
  | depth p =>
    refine ⟨?_, h⟩
    obtain ⟨store, log, rfl⟩ := L.rest h
    rfl
  | readings => exact L.readings h
  | reading key => exact L.reading? h key
  | begin p type operation =>
    dsimp only [EngineAct.run]
    exact L.begin h p type operation
  | close p call ending => exact ⟨rfl, L.close h p call ending⟩
  | inFlight type =>
    refine ⟨?_, h⟩
    dsimp only [EngineAct.run]
    rw [L.dispatch h]
  | joinStats =>
    refine ⟨?_, h⟩
    dsimp only [EngineAct.run]
    rw [L.dispatch h]

theorem form {β : Type} (ending : β → Ending) (h : L.Like w w') (p : Place) (form : CallForm)
    {body : Place → World σ → β × World σ} {body' : Place → World τ → β × World τ}
    (hbody : ∀ p v v', L.Like v v' → L.Same (body p v) (body' p v')) :
    L.Same (form.run (d.withSink s) p ending body w)
      (form.run (d.withSink s') p ending body' w') := by
  cases form <;> dsimp only [CallForm.run]
  case typed type operation => exact L.instrument ending h p type operation (hbody p)
  case rpc operation => exact L.instrument ending h p .rpc operation (hbody p)
  case request method path =>
    dsimp only [Dispatcher.instrumentRequest]
    with_reducible refine (L.requestKeys h method path).elim fun keys v v' h => ?_
    dsimp only
    exact L.instrument ending h p keys.1 keys.2 (hbody p)
  case task type operation => exact L.instrumentTask ending h p type operation hbody

theorem program {β : Type} (program : Program β) (h : L.Like w w') :
    L.Same (program.run (d.withSink s) w) (program.run (d.withSink s') w') := by
  -- The bodies of calls and what follows them are programs as well, each with its own worlds.
  induction program generalizing w w' with
  | done result => exact ⟨rfl, h⟩
  | move tick rest ih =>
    refine ih ?_
    obtain ⟨store, log, rfl⟩ := L.rest h
    exact L.of_eq h rfl rfl rfl
  | act a next ih =>
    dsimp only [Program.run]
    with_reducible refine (L.act h a).elim fun answer v v' h => ?_
    exact ih answer h
  | call form p ending body next ihBody ihNext =>
    dsimp only [Program.run]
    have hform := L.form ending h p form fun p v v' h => ihBody p h
    with_reducible refine hform.elim fun result v v' h => ?_
    exact ihNext result h
  | scope p body next ihBody ihNext =>
    dsimp only [Program.run]
    have hscope := L.inScope h p fun p v v' h => ihBody p h
    with_reducible refine hscope.elim fun result v v' h => ?_
    exact ihNext result h

end Likeness

/-- The calls that a program gives to a sink, with the answers that it gets. -/
def Program.answered {β : Type} (program : Program β) (d : Dispatcher σ) (w : World σ) :
    List AnsweredCall :=
  (program.run (d.withSink d.client.sink.audited) w.audited).2.store.answered

section
variable {ρ β : Type} (d : Dispatcher ρ) (program : Program β)

/-- To audit the sink of a program keeps its calls and changes nothing else. -/
theorem Program.run_audited (s : Sink σ) (w : World σ) :
    program.run (d.withSink s.audited) w.audited =
      ((program.run (d.withSink s) w).1,
        (program.run (d.withSink s) w).2.under
          ⟨program.answered (d.withSink s) w, (program.run (d.withSink s) w).2.store⟩
          (program.run (d.withSink s) w).2.log) := by
  have hstart : (Likeness.unaudited d.client s).Like w.audited w := rfl
  obtain ⟨hresult, hworld⟩ := Likeness.program _ program hstart
  have hworld : (program.run (d.withSink s) w).2 = _ := hworld
  refine Prod.ext hresult.symm ?_
  rw [hworld]
  rfl

/-- What sinks that move no clock answer makes no difference to a program that uses them: it ends
with the same result, having given them the same calls at the same times, and leaves worlds that are
equal but for the sinks themselves and the logs. The logs hold the same events, and besides one warning
for each call that was refused. -/
theorem sink_answers_only_logged {s : Sink σ} {s' : Sink τ} (hs : s.Still) (hs' : s'.Still)
    (w : World ρ) (store : σ) (store' : τ) :
    let d₁ := d.withSink s
    let d₂ := d.withSink s'
    let w₁ := w.under store w.log
    let w₂ := w.under store' w.log
    let run₁ := program.run d₁ w₁
    let run₂ := program.run d₂ w₂
    run₂.1 = run₁.1 ∧
      run₂.2 = run₁.2.under run₂.2.store run₂.2.log ∧
      (program.answered d₂ w₂).map AnsweredCall.asked =
        (program.answered d₁ w₁).map AnsweredCall.asked ∧
      ∃ events,
        Explains d.client.logger w.log run₁.2.log (program.answered d₁ w₁) events ∧
          Explains d.client.logger w.log run₂.2.log (program.answered d₂ w₂) events := by
  intro d₁ d₂ w₁ w₂ run₁ run₂
  have hstart : w₁.audited.Alike d.client.logger w.log w₂.audited :=
    ⟨⟨_, _, rfl⟩, rfl, [], .none _ _, .none _ _⟩
  obtain ⟨hresult, hworld⟩ := (Likeness.answers d.client hs hs' w.log).program program hstart
  rw [program.run_audited d s w₁, program.run_audited d s' w₂] at hresult hworld
  obtain ⟨store, log, hrest⟩ := hworld.rest
  exact ⟨hresult,
    congrArg (fun v : World (Audited τ) => v.under run₂.2.store run₂.2.log) hrest,
    hworld.asked, hworld.logs⟩

end

/-- Counts once, flushes, and gives back the reading of the counter. -/
def Program.counting : Program (Option MetricReading) :=
  .act (.recordCount ⟨"a"⟩ 1) fun _ => .act (.flush ⟨"a"⟩) fun _ => .act (.reading ⟨"a"⟩) .done

theorem sink_answers_only_logged_counting :
    (Sink.discarding : Sink Unit).Still ∧ (Sink.failing : Sink Unit).Still ∧
      (Program.counting.run (Dispatcher.quiet.withSink .failing)
        ((World.started .default ⟨.started 0 0, ()⟩).under () #[])).1 =
          some ⟨⟨"a"⟩, .counter, 1, 1, 1, 1⟩ :=
  ⟨Sink.still_discarding, Sink.still_failing,
    (sink_answers_only_logged Dispatcher.quiet Program.counting Sink.still_discarding
      Sink.still_failing (World.started .default ⟨.started 0 0, ()⟩) () ()).1.trans (by rfl)⟩

end CallMetrics
