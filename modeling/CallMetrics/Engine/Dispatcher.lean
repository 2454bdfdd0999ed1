import CallMetrics.Correlation
import CallMetrics.Engine.Client

/-! The dispatcher wraps calls. A call begins by entering the count of its site and opening a
section; it ends by recording what it took, or that it failed, and by flushing its keys and leaving
the count. The steps of one call may be interleaved with those of others; `instrument` takes them
one after the other around the body of a call. -/

namespace CallMetrics

structure Dispatcher (σ : Type) where
  userPrefix : String
  anonymousUser : UserId
  client : Client σ
  identity : Identity
  logger : Logger

structure CallKeys where
  operation : MetricKey
  user : MetricKey
  errors : MetricKey
  overhead : MetricKey
  deriving DecidableEq

structure Invocation where
  type : CallType
  keys : CallKeys
  guard : InFlightGuard
  id : CorrelationId

inductive Ending
  | succeeded
  | failed
  | unwound
  deriving DecidableEq, Repr

inductive Outcome (ε α : Type)
  | ok (value : α)
  | err (error : ε)
  | unwound

namespace Outcome
variable {ε α : Type}

def ending : Outcome ε α → Ending
  | ok _ => .succeeded
  | err _ => .failed
  | unwound => .unwound

end Outcome

namespace Dispatcher
variable {σ : Type}

def ofConfig (config : ValidConfig) (client : Client σ) (identity : Identity) (logger : Logger) :
    Dispatcher σ :=
  ⟨config.config.userPrefix, config.anonymousUser, client, identity, logger⟩

def logDebug (d : Dispatcher σ) (event : String) (f : Failure) (fields : Option Fields)
    (w : World σ) : World σ :=
  w.logged d.logger (.ofFailure .debug event f fields)

def join (left right : String) (w : World σ) : String × World σ :=
  let joined := w.dispatch.cache.join left right
  (joined.1.text, { w with dispatch := { w.dispatch with cache := joined.2 } })

/-- A key joined of two parts, or another one if the joined text is no key. -/
def joinKey (left right : String) (fallback : MetricKey) (w : World σ) : MetricKey × World σ :=
  let (s, w) := join left right w
  match MetricKey.ofJoined s with
  | .ok key => (key, w)
  | .error _ => (fallback, w)

@[simp] theorem join_fst (left right : String) (w : World σ) :
    (join left right w).1 = left ++ right := w.dispatch.cache.join_text left right

@[simp] theorem join_component (left right : String) (w : World σ) :
    (join left right w).2.dispatch.component = w.dispatch.component := rfl

def joinPrefix (type : CallType) (w : World σ) : String × World σ :=
  let typeSegment := join type.text "/" w
  join (w.dispatch.component.text ++ "/") typeSegment.1 typeSegment.2

@[simp] theorem joinPrefix_component (type : CallType) (w : World σ) :
    (joinPrefix type w).2.dispatch.component = w.dispatch.component := by
  simp only [joinPrefix, join_component]

theorem joinPrefix_fst (type : CallType) (w : World σ) :
    (joinPrefix type w).1 = sitePrefix (joinPrefix type w).2.dispatch.component type := by
  simp [joinPrefix, sitePrefix, String.append_assoc]

def openSite (type : CallType) (keyPrefix : String) (w : World σ)
    (h : keyPrefix = sitePrefix w.dispatch.component type) : Site × World σ :=
  (⟨keyPrefix, .none⟩, { w with dispatch := w.dispatch.withSite type ⟨keyPrefix, .none⟩ h })

/-- The site of a call type, made at the first call. -/
def site (type : CallType) (w : World σ) : Site × World σ :=
  match w.dispatch.site? type with
  | some site => (site, w)
  | none => openSite type (joinPrefix type w).1 (joinPrefix type w).2 (joinPrefix_fst type w)

def setInFlight (type : CallType) (count : InFlight) (w : World σ) : World σ :=
  { w with dispatch := w.dispatch.setInFlight type count }

def lookupUser (d : Dispatcher σ) (p : Place) (w : World σ) : Except IdentityError UserId :=
  d.identity.answer ⟨p.user, w.users.get? p.thread, w.calls⟩

/-- The user of a call; one who cannot be found out is logged and replaced. -/
def currentUser (d : Dispatcher σ) (p : Place) (w : World σ) : UserId × World σ :=
  match d.lookupUser p w with
  | .ok user => (user, w)
  | .error e => (d.anonymousUser, d.logDebug "identity.lookup_failed" e.toFailure none w)

def callKeys (d : Dispatcher σ) (p : Place) (keyPrefix : String) (operation : OperationName)
    (w : World σ) : CallKeys × World σ :=
  let (user, w) := d.currentUser p w
  let (opKey, w) := joinKey keyPrefix operation.text
    (unjoinedOperationKey w.dispatch.component keyPrefix operation) w
  let (userHead, w) := join d.userPrefix user.text w
  let (segment, w) := join userHead "/" w
  let (perUser, w) := joinKey segment opKey.text (userKey d.userPrefix user opKey) w
  let (errors, w) := joinKey opKey.text ("/" ++ Reserved.errors) (opKey.child Reserved.errors) w
  let (overhead, w) :=
    joinKey opKey.text ("/" ++ Reserved.overhead) (opKey.child Reserved.overhead) w
  (⟨opKey, perUser, errors, overhead⟩, w)

/-- Counts a call in, finds its keys, and opens its section. -/
def begin (d : Dispatcher σ) (p : Place) (type : CallType) (operation : OperationName)
    (w : World σ) : Invocation × World σ :=
  let (site, w) := site type w
  let (guard, count) := site.inFlight.enter
  let (keys, w) := d.callKeys p site.keyPrefix operation (setInFlight type count w)
  let call : Invocation := ⟨type, keys, guard, .ofCall (w.calls + 1)⟩
  (call, d.client.start p keys.operation { w with calls := w.calls + 1 })

def siteMetric (call : Invocation) (name : String) (w : World σ) : MetricKey :=
  siteKey w.dispatch.component call.type name

/-- Ends the section of a call that gave a value, and records it with the level of concurrency. -/
def recordCall (d : Dispatcher σ) (p : Place) (call : Invocation) (w : World σ) : World σ :=
  let c := d.client
  let (reading, w) := c.finish p call.keys.operation w
  let w := match reading with
    | some r =>
      c.recordReading (siteMetric call Reserved.total w) r (c.recordReading call.keys.user r w)
    | none => w
  let level := Int64.ofIntClamp call.guard.level.toNat
  c.recordGauge (siteMetric call Reserved.concurrency w) level w

def succeed (d : Dispatcher σ) (p : Place) (call : Invocation) (w : World σ) : World σ :=
  let recorded := d.recordCall p call w
  let overhead := span w.clock.precise recorded.clock.precise
  d.client.recordSample (siteMetric call Reserved.overhead recorded) overhead
    (d.client.recordSample call.keys.overhead overhead recorded)

def fail (d : Dispatcher σ) (p : Place) (call : Invocation) (w : World σ) : World σ :=
  d.client.recordCount call.keys.errors 1 (d.client.cancel p w).2

def abandon (d : Dispatcher σ) (p : Place) (call : Invocation) (w : World σ) : World σ :=
  (d.client.cancel p w).2.logged d.client.logger {
    level := .debug
    event := "dispatcher.unwound"
    message := "wrapped call did not complete"
    fields := some ((keyField call.keys.operation).insert "invocationId"
      (.text call.id.text)) }

def release (d : Dispatcher σ) (call : Invocation) (w : World σ) : World σ :=
  let w := d.client.flush call.keys.user (d.client.flush call.keys.operation w)
  setInFlight call.type (w.dispatch.inFlight call.type).leave w

def close (d : Dispatcher σ) (p : Place) (call : Invocation) (ending : Ending) (w : World σ) :
    World σ :=
  d.release call (match ending with
    | .succeeded => d.succeed p call w
    | .failed => d.fail p call w
    | .unwound => d.abandon p call w)

/-- Runs the body of a call; `ending` tells how it ended from what it gave, which is handed on. -/
def instrument {β : Type} (d : Dispatcher σ) (p : Place) (type : CallType)
    (operation : OperationName) (ending : β → Ending) (body : World σ → β × World σ) (w : World σ) :
    β × World σ :=
  let (call, w) := d.begin p type operation w
  let (result, w) := body w
  (result, d.close p call (ending result) w)

def instrumentRpc {β : Type} (d : Dispatcher σ) (p : Place) (operation : OperationName)
    (ending : β → Ending) (body : World σ → β × World σ) (w : World σ) : β × World σ :=
  d.instrument p .rpc operation ending body w

def reportRequest (d : Dispatcher σ) (method path : String) (e : KeyError) (w : World σ) : World σ :=
  d.logDebug "dispatcher.key_invalid" e.toFailure
    (some (Dict.ofList [("method", .text method), ("path", .text path)])) w

/-- The type and the operation of a request; what cannot be used is logged and replaced. -/
def requestKeys (d : Dispatcher σ) (method path : String) (w : World σ) :
    (CallType × OperationName) × World σ :=
  let (type, w) := match CallType.ofMethod method with
    | .ok type => (type, w)
    | .error e => (.get, d.reportRequest method path e w)
  match OperationName.read path with
  | .ok operation => ((type, operation), w)
  | .error e => ((type, .unresolved), d.reportRequest method path e w)

def instrumentRequest {β : Type} (d : Dispatcher σ) (p : Place) (method path : String)
    (ending : β → Ending) (body : World σ → β × World σ) (w : World σ) : β × World σ :=
  let ((type, operation), w) := d.requestKeys method path w
  d.instrument p type operation ending body w

/-- Runs the body of a call as a task: in a scope of its own unless it is in one already. -/
def instrumentTask {β : Type} (d : Dispatcher σ) (p : Place) (type : CallType)
    (operation : OperationName) (ending : β → Ending) (body : Place → World σ → β × World σ)
    (w : World σ) : β × World σ :=
  match p.scope with
  | some _ => d.instrument p type operation ending (body p) w
  | none => World.inScope p (fun p => d.instrument p type operation ending (body p)) w

end Dispatcher
end CallMetrics
