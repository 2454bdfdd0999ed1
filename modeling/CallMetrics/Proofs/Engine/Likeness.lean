import CallMetrics.Engine.Dispatcher
import CallMetrics.Proofs.Engine.Recording

/-! Worlds of programs with different sinks. A likeness relates worlds that are equal but for the
states of their sinks and their logs, so that it lasts when both log an event of their own and when
both give their sinks one more call. It then lasts whatever a client and a dispatcher do, and both
give the same back. -/

namespace CallMetrics
variable {ρ σ τ : Type}

namespace SinkCall

def key : SinkCall → MetricKey
  | emit e => e.key
  | flush key => key

def failedEvent : SinkCall → String
  | emit _ => "sink.emit_failed"
  | flush _ => "sink.flush_failed"

end SinkCall

namespace World

/-- The same world with another sink's state and another log. -/
def under (w : World σ) (store : τ) (log : Array LogRecord) : World τ :=
  { w with clock := w.clock, store, log }

theorem logged_eq_under (w : World σ) (l : Logger) (e : LogEvent) :
    w.logged l e = w.under w.store (w.log ++ (l.record w.clock.stamp e).toArray) := by
  unfold logged
  cases l.record w.clock.stamp e with
  | some r => simp [under]
  | none => simp [under]

end World

namespace Client

def withSink (c : Client σ) (s : Sink τ) : Client τ := ⟨c.name, c.timer, c.window, s, c.logger⟩

/-- Gives the sink a call and takes its answer. -/
def offer (c : Client σ) (call : SinkCall) (w : World σ) : World σ :=
  c.settle call.failedEvent call.key (c.sink.answer w.toStage call) w

theorem emit_eq_offer (c : Client σ) (key : MetricKey) (kind : MetricKind) (values : List Int64)
    (w : World σ) : c.emit key kind values w = c.offer (.emit ⟨key, kind, values⟩) w := rfl

theorem flush_eq_offer (c : Client σ) (key : MetricKey) (w : World σ) :
    c.flush key w = c.offer (.flush key) w := rfl

end Client

def Dispatcher.withSink (d : Dispatcher σ) (s : Sink τ) : Dispatcher τ :=
  ⟨d.userPrefix, d.anonymousUser, d.client.withSink s, d.identity, d.logger⟩

/-- A relation between the worlds of one client with two sinks. -/
structure Likeness (c : Client ρ) (s : Sink σ) (s' : Sink τ) where
  Like : World σ → World τ → Prop
  rest {w : World σ} {w' : World τ} : Like w w' → ∃ store log, w' = w.under store log
  of_eq {w v : World σ} {w' v' : World τ} : Like w w' → v.store = w.store → v.log = w.log →
    v' = v.under w'.store w'.log → Like v v'
  logged {w : World σ} {w' : World τ} (l : Logger) {e : LogEvent} : Like w w' → ¬e.OfSink →
    Like (w.logged l e) (w'.logged l e)
  offer {w : World σ} {w' : World τ} (call : SinkCall) : Like w w' →
    Like ((c.withSink s).offer call w) ((c.withSink s').offer call w')

namespace Likeness

section Client
variable {c : Client ρ} {s : Sink σ} {s' : Sink τ} (L : Likeness c s s') {w : World σ} {w' : World τ}

theorem clock (h : L.Like w w') : w'.clock = w.clock := by
  obtain ⟨store, log, rfl⟩ := L.rest h
  rfl

theorem dispatch (h : L.Like w w') : w'.dispatch = w.dispatch := by
  obtain ⟨store, log, rfl⟩ := L.rest h
  rfl

theorem calls (h : L.Like w w') : w'.calls = w.calls := by
  obtain ⟨store, log, rfl⟩ := L.rest h
  rfl

/-- Both give the same back and leave worlds that are alike. -/
def Same {α : Type} (x : α × World σ) (x' : α × World τ) : Prop := x'.1 = x.1 ∧ L.Like x.2 x'.2

/-- What holds of every result with worlds that are alike holds of what is the same. -/
@[elab_as_elim]
theorem Same.elim {L : Likeness c s s'} {α : Type} {x : α × World σ} {x' : α × World τ}
    {motive : α × World σ → α × World τ → Prop} (h : L.Same x x')
    (hmotive : ∀ a v v', L.Like v v' → motive (a, v) (a, v')) : motive x x' := by
  obtain ⟨a, v⟩ := x
  obtain ⟨a', v'⟩ := x'
  obtain rfl : a = a' := h.1.symm
  exact hmotive a v v' h.2

theorem onRegistry (h : L.Like w w') (f : Registry → Registry) :
    L.Like ((c.withSink s).onRegistry f w) ((c.withSink s').onRegistry f w') := by
  obtain ⟨store, log, rfl⟩ := L.rest h
  exact L.of_eq h rfl rfl rfl

/-- Whatever is recorded goes to the registry and then to the sink. -/
theorem record (h : L.Like w w') (f : Registry → Registry) (key : MetricKey) (kind : MetricKind)
    (values : List Int64) :
    L.Like ((c.withSink s).emit key kind values ((c.withSink s).onRegistry f w))
      ((c.withSink s').emit key kind values ((c.withSink s').onRegistry f w')) := by
  rw [Client.emit_eq_offer, Client.emit_eq_offer]
  exact L.offer _ (L.onRegistry h f)

theorem flush (h : L.Like w w') (key : MetricKey) :
    L.Like ((c.withSink s).flush key w) ((c.withSink s').flush key w') := by
  rw [Client.flush_eq_offer, Client.flush_eq_offer]
  exact L.offer _ h

theorem recordTimes (h : L.Like w w') (key : MetricKey) (millis : Int64) (nanos : Option Int64) :
    L.Like ((c.withSink s).recordTimes key millis nanos w)
      ((c.withSink s').recordTimes key millis nanos w') := by
  rw [Client.recordTimes, Client.recordTimes, L.clock h]
  exact L.record h _ _ _ _

theorem recordReading (h : L.Like w w') (key : MetricKey) (r : TimerReading) :
    L.Like ((c.withSink s).recordReading key r w) ((c.withSink s').recordReading key r w') :=
  L.recordTimes h _ _ _

theorem recordCount (h : L.Like w w') (key : MetricKey) (delta : Int64) :
    L.Like ((c.withSink s).recordCount key delta w) ((c.withSink s').recordCount key delta w') :=
  L.record h _ _ _ _

theorem setCount (h : L.Like w w') (key : MetricKey) (value : Int64) :
    L.Like ((c.withSink s).setCount key value w) ((c.withSink s').setCount key value w') :=
  L.record h _ _ _ _

theorem recordGauge (h : L.Like w w') (key : MetricKey) (value : Int64) :
    L.Like ((c.withSink s).recordGauge key value w) ((c.withSink s').recordGauge key value w') := by
  rw [Client.recordGauge, Client.recordGauge, L.clock h]
  exact L.record h _ _ _ _

theorem recordSample (h : L.Like w w') (key : MetricKey) (value : Int64) :
    L.Like ((c.withSink s).recordSample key value w)
      ((c.withSink s').recordSample key value w') := by
  rw [Client.recordSample, Client.recordSample, L.clock h]
  exact L.record h _ _ _ _

theorem start (h : L.Like w w') (p : Place) (key : MetricKey) :
    L.Like ((c.withSink s).start p key w) ((c.withSink s').start p key w') := by
  obtain ⟨store, log, rfl⟩ := L.rest h
  exact L.of_eq h rfl rfl rfl

theorem finishAs (h : L.Like w w') (p : Place) (key target : MetricKey) :
    L.Same ((c.withSink s).finishAs p key target w)
      ((c.withSink s').finishAs p key target w') := by
  have hfinish : L.Same ((c.withSink s).timer.finish p key.text w)
      ((c.withSink s').timer.finish p key.text w') := by
    obtain ⟨store, log, rfl⟩ := L.rest h
    exact ⟨rfl, L.of_eq h rfl rfl rfl⟩
  rw [Client.finishAs, Client.finishAs]
  refine hfinish.elim fun result v v' h => ?_
  cases result with
  | ok r => exact ⟨rfl, L.recordReading h _ _⟩
  | error m => exact ⟨rfl, L.logged _ h (of_decide_eq_false rfl)⟩

theorem finish (h : L.Like w w') (p : Place) (key : MetricKey) :
    L.Same ((c.withSink s).finish p key w) ((c.withSink s').finish p key w') :=
  L.finishAs h p key key

theorem cancel (h : L.Like w w') (p : Place) :
    L.Same ((c.withSink s).cancel p w) ((c.withSink s').cancel p w') := by
  obtain ⟨store, log, rfl⟩ := L.rest h
  exact ⟨rfl, L.of_eq h rfl rfl rfl⟩

theorem readings (h : L.Like w w') :
    L.Same ((c.withSink s).readings w) ((c.withSink s').readings w') := by
  obtain ⟨store, log, rfl⟩ := L.rest h
  exact ⟨rfl, L.of_eq h rfl rfl rfl⟩

theorem reading? (h : L.Like w w') (key : MetricKey) :
    L.Same ((c.withSink s).reading? key w) ((c.withSink s').reading? key w') := by
  obtain ⟨store, log, rfl⟩ := L.rest h
  exact ⟨rfl, L.of_eq h rfl rfl rfl⟩

/-! What asks nothing of the client: scopes, and the finding of keys. -/

theorem inScope {β : Type} (h : L.Like w w') (p : Place) {body : Place → World σ → β × World σ}
    {body' : Place → World τ → β × World τ}
    (hbody : ∀ p v v', L.Like v v' → L.Same (body p v) (body' p v')) :
    L.Same (World.inScope p body w) (World.inScope p body' w') := by
  have hentered : L.Same (World.enterScope p w) (World.enterScope p w') := by
    obtain ⟨store, log, rfl⟩ := L.rest h
    exact ⟨rfl, L.of_eq h rfl rfl rfl⟩
  rw [World.inScope, World.inScope]
  with_reducible refine hentered.elim fun inner v v' h => ?_
  dsimp only
  with_reducible refine (hbody inner v v' h).elim fun result v v' h => ?_
  obtain ⟨store, log, rfl⟩ := L.rest h
  exact ⟨rfl, L.of_eq h rfl rfl rfl⟩

theorem join (h : L.Like w w') (left right : String) :
    L.Same (Dispatcher.join left right w) (Dispatcher.join left right w') := by
  obtain ⟨store, log, rfl⟩ := L.rest h
  exact ⟨rfl, L.of_eq h rfl rfl rfl⟩

theorem joinKey (h : L.Like w w') (left right : String) (fallback : MetricKey) :
    L.Same (Dispatcher.joinKey left right fallback w)
      (Dispatcher.joinKey left right fallback w') := by
  rw [Dispatcher.joinKey, Dispatcher.joinKey]
  -- Terms are compared as they stand here and below: to unfold a join is to open the memo.
  with_reducible refine (L.join h left right).elim fun text v v' h => ?_
  dsimp only
  cases MetricKey.ofJoined text with
  | ok key => exact ⟨rfl, h⟩
  | error e => exact ⟨rfl, h⟩

theorem joinPrefix (h : L.Like w w') (type : CallType) :
    L.Same (Dispatcher.joinPrefix type w) (Dispatcher.joinPrefix type w') := by
  rw [Dispatcher.joinPrefix, Dispatcher.joinPrefix, L.dispatch h]
  with_reducible refine (L.join h type.text "/").elim fun segment v v' h => ?_
  exact L.join h _ _

theorem openSite (h : L.Like w w') (type : CallType) {keyPrefix keyPrefix' : String}
    (heq : keyPrefix' = keyPrefix) (hp : keyPrefix = sitePrefix w.dispatch.component type)
    (hp' : keyPrefix' = sitePrefix w'.dispatch.component type) :
    L.Same (Dispatcher.openSite type keyPrefix w hp)
      (Dispatcher.openSite type keyPrefix' w' hp') := by
  subst heq
  obtain ⟨store, log, rfl⟩ := L.rest h
  exact ⟨rfl, L.of_eq h rfl rfl rfl⟩

theorem site (h : L.Like w w') (type : CallType) :
    L.Same (Dispatcher.site type w) (Dispatcher.site type w') := by
  have hstart := L.joinPrefix h type
  unfold Dispatcher.site
  rw [L.dispatch h]
  cases w.dispatch.site? type with
  | some site => exact ⟨rfl, h⟩
  | none => exact L.openSite hstart.2 type hstart.1 _ _

theorem setInFlight (h : L.Like w w') (type : CallType) (count : InFlight) :
    L.Like (Dispatcher.setInFlight type count w) (Dispatcher.setInFlight type count w') := by
  obtain ⟨store, log, rfl⟩ := L.rest h
  exact L.of_eq h rfl rfl rfl

theorem siteMetric (h : L.Like w w') (call : Invocation) (name : String) :
    Dispatcher.siteMetric call name w' = Dispatcher.siteMetric call name w := by
  rw [Dispatcher.siteMetric, Dispatcher.siteMetric, L.dispatch h]

end Client

section Dispatcher
variable {d : Dispatcher ρ} {s : Sink σ} {s' : Sink τ} (L : Likeness d.client s s') {w : World σ}
  {w' : World τ}

theorem currentUser (h : L.Like w w') (p : Place) :
    L.Same ((d.withSink s).currentUser p w) ((d.withSink s').currentUser p w') := by
  have hlookup : (d.withSink s').lookupUser p w' = (d.withSink s).lookupUser p w := by
    obtain ⟨store, log, rfl⟩ := L.rest h
    rfl
  rw [Dispatcher.currentUser, Dispatcher.currentUser, hlookup]
  cases (d.withSink s).lookupUser p w with
  | ok user => exact ⟨rfl, h⟩
  | error e => exact ⟨rfl, L.logged _ h (of_decide_eq_false rfl)⟩

theorem callKeys (h : L.Like w w') (p : Place) (keyPrefix : String) (operation : OperationName) :
    L.Same ((d.withSink s).callKeys p keyPrefix operation w)
      ((d.withSink s').callKeys p keyPrefix operation w') := by
  rw [Dispatcher.callKeys, Dispatcher.callKeys]
  with_reducible refine (L.currentUser h p).elim fun user v v' h => ?_
  dsimp only [Dispatcher.withSink]
  rw [L.dispatch h]
  with_reducible refine (L.joinKey h keyPrefix operation.text
    (unjoinedOperationKey v.dispatch.component keyPrefix operation)).elim fun opKey v v' h => ?_
  dsimp only
  with_reducible refine (L.join h d.userPrefix user.text).elim fun userHead v v' h => ?_
  dsimp only
  with_reducible refine (L.join h userHead "/").elim fun segment v v' h => ?_
  dsimp only
  with_reducible refine (L.joinKey h segment opKey.text
    (userKey d.userPrefix user opKey)).elim fun perUser v v' h => ?_
  dsimp only
  with_reducible refine (L.joinKey h opKey.text ("/" ++ Reserved.errors)
    (opKey.child Reserved.errors)).elim fun errors v v' h => ?_
  dsimp only
  with_reducible refine (L.joinKey h opKey.text ("/" ++ Reserved.overhead)
    (opKey.child Reserved.overhead)).elim fun overhead v v' h => ?_
  exact ⟨rfl, h⟩

theorem begin (h : L.Like w w') (p : Place) (type : CallType) (operation : OperationName) :
    L.Same ((d.withSink s).begin p type operation w)
      ((d.withSink s').begin p type operation w') := by
  rw [Dispatcher.begin, Dispatcher.begin]
  with_reducible refine (L.site h type).elim fun site v v' h => ?_
  dsimp only
  with_reducible refine (L.callKeys (L.setInFlight h type site.inFlight.enter.2) p
    site.keyPrefix operation).elim fun keys v v' h => ?_
  dsimp only
  rw [L.calls h]
  have hcounted : L.Like { v with calls := v.calls + 1 } { v' with calls := v.calls + 1 } := by
    obtain ⟨store, log, rfl⟩ := L.rest h
    exact L.of_eq h rfl rfl rfl
  exact ⟨rfl, L.start hcounted p keys.operation⟩

theorem recordCall (h : L.Like w w') (p : Place) (call : Invocation) :
    L.Like ((d.withSink s).recordCall p call w) ((d.withSink s').recordCall p call w') := by
  have hlevel {v : World σ} {v' : World τ} (h : L.Like v v') (level : Int64) :
      L.Like ((d.client.withSink s).recordGauge
          (Dispatcher.siteMetric call Reserved.concurrency v) level v)
        ((d.client.withSink s').recordGauge
          (Dispatcher.siteMetric call Reserved.concurrency v') level v') := by
    rw [L.siteMetric h]
    exact L.recordGauge h _ _
  rw [Dispatcher.recordCall, Dispatcher.recordCall]
  dsimp only [Dispatcher.withSink]
  with_reducible refine (L.finish h p call.keys.operation).elim fun reading v v' h => ?_
  -- The level is recorded whether or not the section ended as it should.
  cases reading with
  | none => exact hlevel h _
  | some r =>
    have huser := L.recordReading h call.keys.user r
    refine hlevel ?_ _
    dsimp only
    rw [L.siteMetric h]
    exact L.recordReading huser _ r

theorem succeed (h : L.Like w w') (p : Place) (call : Invocation) :
    L.Like ((d.withSink s).succeed p call w) ((d.withSink s').succeed p call w') := by
  have hrecorded := L.recordCall h p call
  rw [Dispatcher.succeed, Dispatcher.succeed, L.clock h, L.clock hrecorded, L.siteMetric hrecorded]
  exact L.recordSample (L.recordSample hrecorded _ _) _ _

theorem release (h : L.Like w w') (call : Invocation) :
    L.Like ((d.withSink s).release call w) ((d.withSink s').release call w') := by
  have hflushed := L.flush (L.flush h call.keys.operation) call.keys.user
  rw [Dispatcher.release, Dispatcher.release]
  dsimp only [Dispatcher.withSink]
  rw [L.dispatch hflushed]
  exact L.setInFlight hflushed _ _

theorem close (h : L.Like w w') (p : Place) (call : Invocation) (ending : Ending) :
    L.Like ((d.withSink s).close p call ending w) ((d.withSink s').close p call ending w') := by
  have hcancelled := (L.cancel h p).2
  refine L.release ?_ call
  cases ending with
  | succeeded => exact L.succeed h p call
  | failed => exact L.recordCount hcancelled _ _
  | unwound => exact L.logged _ hcancelled (of_decide_eq_false rfl)

theorem requestKeys (h : L.Like w w') (method path : String) :
    L.Same ((d.withSink s).requestKeys method path w)
      ((d.withSink s').requestKeys method path w') := by
  have hreport {v : World σ} {v' : World τ} (h : L.Like v v') (e : KeyError) :
      L.Like ((d.withSink s).reportRequest method path e v)
        ((d.withSink s').reportRequest method path e v') :=
    L.logged _ h (of_decide_eq_false rfl)
  rw [Dispatcher.requestKeys, Dispatcher.requestKeys]
  cases CallType.ofMethod method with
  | ok type =>
    cases OperationName.read path with
    | ok operation => exact ⟨rfl, h⟩
    | error e => exact ⟨rfl, hreport h e⟩
  | error e =>
    cases OperationName.read path with
    | ok operation => exact ⟨rfl, hreport h e⟩
    | error e' => exact ⟨rfl, hreport (hreport h e) e'⟩

section Wrapped
variable {β : Type} (ending : β → Ending)

theorem instrument (h : L.Like w w') (p : Place) (type : CallType) (operation : OperationName)
    {body : World σ → β × World σ} {body' : World τ → β × World τ}
    (hbody : ∀ v v', L.Like v v' → L.Same (body v) (body' v')) :
    L.Same ((d.withSink s).instrument p type operation ending body w)
      ((d.withSink s').instrument p type operation ending body' w') := by
  rw [Dispatcher.instrument, Dispatcher.instrument]
  with_reducible refine (L.begin h p type operation).elim fun call v v' h => ?_
  dsimp only
  with_reducible refine (hbody v v' h).elim fun result v v' h => ?_
  exact ⟨rfl, L.close h p call (ending result)⟩

theorem instrumentTask (h : L.Like w w') (p : Place) (type : CallType) (operation : OperationName)
    {body : Place → World σ → β × World σ} {body' : Place → World τ → β × World τ}
    (hbody : ∀ p v v', L.Like v v' → L.Same (body p v) (body' p v')) :
    L.Same ((d.withSink s).instrumentTask p type operation ending body w)
      ((d.withSink s').instrumentTask p type operation ending body' w') := by
  unfold Dispatcher.instrumentTask
  cases p.scope with
  | some n => exact L.instrument ending h p type operation (hbody p)
  | none =>
    exact L.inScope h p fun inner v v' h => L.instrument ending h inner type operation (hbody inner)

end Wrapped

end Dispatcher

end Likeness
end CallMetrics
