import CallMetrics.Proofs.Engine.Observed

/-! Calls within calls. A body leaves the stack of open sections as it finds it, however the calls in
it end (`ran_body`). So every call finds its own frame innermost when it ends, and the sink is given
one block for each call, in the order of their ends, with the time that the call took. -/

namespace CallMetrics
variable {σ : Type}

/-- A call that has ended, with the clocks as they were when it began and when its body ended. -/
structure EndedCall where
  call : Invocation
  begun : Clock
  ended : Clock
  ending : Ending

/-- What the sink is given for a call that is timed by its own section. -/
def EndedCall.block (component : ComponentKey) (overhead : Int64) (e : EndedCall) : List SinkCall :=
  e.call.block component (some (.between e.begun e.ended)) overhead e.ending

inductive CallEntry
  | typed (type : CallType) (operation : OperationName)
  | rpc (operation : OperationName)
  | request (method path : String)

namespace CallEntry

def type : CallEntry → CallType
  | typed type _ => type
  | rpc _ => .rpc
  | request method _ => Dispatcher.requestType method

def operation : CallEntry → OperationName
  | typed _ operation => operation
  | rpc operation => operation
  | request _ path => Dispatcher.requestOperation path

def run (d : Dispatcher σ) (p : Place) (body : World σ → Ending × World σ) (w : World σ) :
    CallEntry → Ending × World σ
  | typed type operation => d.instrument p type operation id body w
  | rpc operation => d.instrumentRpc p operation id body w
  | request method path => d.instrumentRequest p method path id body w

end CallEntry

/-- The body of a call: it moves the clocks and makes calls, and then it ends. Where it makes a call,
it tells whether it catches an unwinding out of it. -/
inductive CallBody
  | done (ending : Ending)
  | move (tick : Clock → Clock) (rest : CallBody)
  | call (entry : CallEntry) (inner : CallBody) (catches : Bool) (rest : CallBody)

structure CallTree where
  entry : CallEntry
  body : CallBody

namespace CallBody

def run (d : Dispatcher σ) (p : Place) : CallBody → World σ → Ending × World σ
  | done ending, w => (ending, w)
  | move tick rest, w => rest.run d p (w.onClock tick)
  | call entry inner catches rest, w =>
    let (ending, w) := entry.run d p (inner.run d p) w
    -- An unwinding that is not caught ends the body that the call was made in.
    if ending = .unwound ∧ catches = false then (.unwound, w) else rest.run d p w

theorem run_call (d : Dispatcher σ) (p : Place) (entry : CallEntry) (inner : CallBody)
    (catches : Bool) (rest : CallBody) (w : World σ) :
    (call entry inner catches rest).run d p w =
      if (entry.run d p (inner.run d p) w).1 = .unwound ∧ catches = false then
        (.unwound, (entry.run d p (inner.run d p) w).2)
      else rest.run d p (entry.run d p (inner.run d p) w).2 := rfl

end CallBody

def CallTree.run (d : Dispatcher σ) (p : Place) (tree : CallTree) (w : World σ) :
    Ending × World σ := tree.entry.run d p (tree.body.run d p) w

/-- What the keys of calls are made of while no other user is bound. -/
structure Setting where
  component : ComponentKey
  userPrefix : String
  /-- By the number of calls that began before. -/
  user : Nat → UserId

/-- How a body ended and when, with the calls that ended in it and the number of all calls that have
begun by then. -/
structure Traced where
  ending : Ending
  ended : List EndedCall
  clock : Clock
  turn : Nat

namespace Traced

/-- What the sink is given if recording takes no time. -/
def sent (component : ComponentKey) (t : Traced) : List SinkCall :=
  t.ended.flatMap (·.block component 0)

def within (t : Traced) (call : Invocation) (begun : Clock) : Traced :=
  { t with ended := t.ended ++ [⟨call, begun, t.clock, t.ending⟩] }

def after (child t : Traced) : Traced := { t with ended := child.ended ++ t.ended }

end Traced

namespace Setting
variable (s : Setting)

def call (entry : CallEntry) (running : CallType → InFlight) (turn : Nat) : Invocation where
  type := entry.type
  keys := .of s.component s.userPrefix (s.user turn) entry.type entry.operation
  guard := (running entry.type).enter.1
  id := .ofCall (turn + 1)

/-- How many calls run with one more of a type. -/
def entered (type : CallType) (running : CallType → InFlight) (t : CallType) : InFlight :=
  if t = type then (running type).enter.2 else running t

/-- What happens in a body that starts while so many calls run, at the given time and turn. -/
def trace (running : CallType → InFlight) (now : Clock) (turn : Nat) : CallBody → Traced
  | .done ending => ⟨ending, [], now, turn⟩
  | .move tick rest => trace running (tick now) turn rest
  | .call entry inner catches rest =>
    let child := (trace (entered entry.type running) now (turn + 1) inner).within
      (s.call entry running turn) now
    if child.ending = .unwound ∧ catches = false then child
    else child.after (trace running child.clock child.turn rest)

def traceTree (running : CallType → InFlight) (now : Clock) (turn : Nat) (tree : CallTree) :
    Traced :=
  (s.trace (entered tree.entry.type running) now (turn + 1) tree.body).within
    (s.call tree.entry running turn) now

theorem trace_call (running : CallType → InFlight) (now : Clock) (turn : Nat) (entry : CallEntry)
    (inner : CallBody) (catches : Bool) (rest : CallBody) :
    s.trace running now turn (.call entry inner catches rest) =
      let child := s.traceTree running now turn ⟨entry, inner⟩
      if child.ending = .unwound ∧ catches = false then child
      else child.after (s.trace running child.clock child.turn rest) := rfl

end Setting

namespace Dispatcher

def setting (d : Dispatcher σ) (p : Place) (w : World σ) : Setting :=
  ⟨w.dispatch.component, d.userPrefix, d.userOf p w.users⟩

theorem setting_congr (d : Dispatcher σ) (p : Place) {w w' : World σ} (husers : w'.users = w.users)
    (hcomponent : w'.dispatch.component = w.dispatch.component) :
    d.setting p w' = d.setting p w := by
  rw [setting, setting, husers, hcomponent]

end Dispatcher

/-- A body ran as it was traced: it left the sections and the counts of running calls as they were,
and gave the sink the blocks of the calls in it. -/
structure World.Ran (d : Dispatcher σ) (p : Place) (w : World (Observed σ)) (t : Traced)
    (r : Ending × World (Observed σ)) : Prop where
  ending : r.1 = t.ending
  sent : r.2.store.calls = w.store.calls ++ t.sent w.dispatch.component
  clock : r.2.clock = t.clock
  turn : r.2.calls = t.turn
  users : r.2.users = w.users
  component : r.2.dispatch.component = w.dispatch.component
  stack : d.observed.stack p r.2 = d.observed.stack p w
  inFlight : r.2.dispatch.inFlight = w.dispatch.inFlight
  known : ∀ type, (w.dispatch.site? type).isSome → (r.2.dispatch.site? type).isSome

namespace World
variable {d : Dispatcher σ} {p : Place} {w : World (Observed σ)}

theorem Ran.after {child t : Traced} {r r' : Ending × World (Observed σ)} (h : w.Ran d p child r)
    (h' : r.2.Ran d p t r') : w.Ran d p (child.after t) r' where
  ending := h'.ending
  sent := by
    rw [h'.sent, h.sent, h.component, List.append_assoc]
    simp only [Traced.sent, Traced.after, List.flatMap_append]
  clock := h'.clock
  turn := h'.turn
  users := h'.users.trans h.users
  component := h'.component.trans h.component
  stack := h'.stack.trans h.stack
  inFlight := h'.inFlight.trans h.inFlight
  known type ht := h'.known type (h.known type ht)

theorem Ran.of_aside {found : World (Observed σ)} {t : Traced} {r : Ending × World (Observed σ)}
    (h : found.Ran d p t r) (haside : w.Aside found) : w.Ran d p t r where
  ending := h.ending
  sent := by rw [h.sent, haside.stage, haside.component]
  clock := h.clock
  turn := h.turn
  users := h.users.trans haside.users
  component := h.component.trans haside.component
  stack := by
    rw [h.stack]
    simp only [Dispatcher.stack, haside.timers]
  inFlight := h.inFlight.trans (funext haside.inFlight)
  known type ht := h.known type (haside.known type ht)

end World

namespace Dispatcher
variable {d : Dispatcher σ} (hstill : d.client.sink.Still) {p : Place}

include hstill in
/-- A call runs as it is traced if its body does. -/
theorem ran_instrument {type : CallType} {operation : OperationName} {t : Traced}
    {body : World (Observed σ) → Ending × World (Observed σ)} {w : World (Observed σ)}
    (hbody : (d.observed.begin p type operation w).2.Ran d p t
      (body (d.observed.begin p type operation w).2)) :
    w.Ran d p (t.within (d.observed.nextCall p type operation w) w.clock)
      (d.observed.instrument p type operation id body w) := by
  have hbegun := d.observed.begun_begin p type operation w
  have hcall := d.observed.begin_fst p type operation w
  simp only [instrument, hcall, id_eq]
  generalize (d.observed.begin p type operation w).2 = entered at *
  generalize body entered = r at *
  obtain ⟨ending, left⟩ := r
  have hclosed := d.observed.closed_close p (d.observed.nextCall p type operation w) left ending
  -- The body left the stack as it found it, so the frame of the call is innermost.
  have hstack : d.observed.stack p left =
      .opened (operationKey w.dispatch.component type operation).text w.clock ::
        d.observed.stack p w := hbody.stack.trans hbegun.stack
  have hreading : d.observed.reading p (d.observed.nextCall p type operation w) left =
      some (.between w.clock t.clock) := by
    rw [reading_eq, hstack, ← hbody.clock]
    simp only [nextCall, CallKeys.of, endFrame_opened]
    rfl
  have hending : ending = t.ending := hbody.ending
  have hcomponent : left.dispatch.component = w.dispatch.component :=
    hbody.component.trans hbegun.component
  have hstage := hclosed.stage
  rw [hreading, d.overhead_observed hstill, hcomponent] at hstage
  exact {
    ending := hending
    sent := by
      rw [hstage, calls_takeAll, hbody.sent, hbegun.stage, hbegun.component, List.append_assoc, hending]
      simp only [Traced.sent, Traced.within, List.flatMap_append, List.flatMap_cons,
        List.flatMap_nil, List.append_nil]
      rfl
    clock := by
      rw [hstage]
      exact (hstill.observed.takeAll _ left.toStage).trans hbody.clock
    turn := hclosed.calls.trans hbody.turn
    users := hclosed.users.trans (hbody.users.trans hbegun.users)
    component := hclosed.component.trans hcomponent
    stack := by rw [hclosed.stack, hstack, List.tail_cons]
    -- The count left is the one that was entered, since the body left it as it was.
    inFlight := by
      have hknown := hbody.known type (hbegun.known type (.inl rfl))
      funext other
      rw [hclosed.inFlight hknown, hbody.inFlight]
      simp only [nextCall, hbegun.inFlight, if_true]
      by_cases hother : other = type
      · rw [if_pos hother, hother, InFlight.leave_enter]
      · rw [if_neg hother, if_neg hother]
    known := fun other ho => hclosed.known other (hbody.known other (hbegun.known other (.inr ho))) }

theorem nextCall_aside {w w' : World σ} (h : w.Aside w') (type : CallType)
    (operation : OperationName) : d.nextCall p type operation w' = d.nextCall p type operation w := by
  have hcaller : d.caller p w' = d.caller p w := d.caller_congr p h.users h.calls
  simp only [nextCall, h.component, h.inFlight, h.calls, hcaller]

/-- What finding keys changes does not matter to the beginning of a call. -/
theorem Begun.of_aside {w entered w' : World σ} {type : CallType} {operation : OperationName}
    (h : w.Aside entered) (hbegun : d.Begun p type operation entered w') :
    d.Begun p type operation w w' where
  stage := hbegun.stage.trans h.stage
  registries := hbegun.registries.trans h.registries
  users := hbegun.users.trans h.users
  calls := by rw [hbegun.calls, h.calls]
  component := hbegun.component.trans h.component
  stack := by
    rw [hbegun.stack, h.component, congrArg Stage.clock h.stage]
    simp only [Dispatcher.stack, h.timers]
  others c t hne := by rw [hbegun.others c t hne, h.timers]
  inFlight t := by rw [hbegun.inFlight, h.inFlight, h.inFlight]
  known t ht := hbegun.known t (ht.imp_right (h.known t))
  log := h.log.trans hbegun.log

include hstill in
theorem ran_entry (entry : CallEntry) {t : Traced}
    {body : World (Observed σ) → Ending × World (Observed σ)} {w : World (Observed σ)}
    (hbody : ∀ entered, d.observed.Begun p entry.type entry.operation w entered →
      entered.Ran d p t (body entered)) :
    w.Ran d p (t.within (d.observed.nextCall p entry.type entry.operation w) w.clock)
      (entry.run d.observed p body w) := by
  cases entry with
  | typed type operation =>
    have hbegun := d.observed.begun_begin p type operation w
    simp only [CallEntry.run]
    exact ran_instrument hstill (hbody _ hbegun)
  | rpc operation =>
    have hbegun := d.observed.begun_begin p .rpc operation w
    simp only [CallEntry.run, instrumentRpc]
    exact ran_instrument hstill (hbody _ hbegun)
  | request method path =>
    have haside := d.observed.aside_requestKeys w method path
    have hkeys := d.observed.requestKeys_fst w method path
    simp only [CallEntry.run, instrumentRequest, hkeys]
    generalize (d.observed.requestKeys method path w).2 = found at *
    have hbegun := d.observed.begun_begin p (requestType method) (requestOperation path) found
    have hran := ran_instrument hstill (hbody _ (hbegun.of_aside haside))
    rw [nextCall_aside haside, congrArg Stage.clock haside.stage] at hran
    exact hran.of_aside haside

include hstill in
/-- A call runs as it is traced if its body does, in whatever world that is run. -/
theorem ran_call (tree : CallTree)
    (hbody : ∀ w, World.Ran d p w ((d.observed.setting p w).trace w.dispatch.inFlight w.clock
      w.calls tree.body) (tree.body.run d.observed p w)) (w : World (Observed σ)) :
    w.Ran d p ((d.observed.setting p w).traceTree w.dispatch.inFlight w.clock w.calls tree)
      (tree.run d.observed p w) := by
  refine ran_entry hstill tree.entry fun entered hbegun => ?_
  have h := hbody entered
  rwa [setting_congr _ _ hbegun.users hbegun.component, funext hbegun.inFlight, hbegun.calls,
    congrArg Stage.clock hbegun.stage] at h

include hstill in
/-- By induction on the body: what a call leaves is where the rest of the body starts. -/
theorem ran_body (body : CallBody) (w : World (Observed σ)) :
    w.Ran d p ((d.observed.setting p w).trace w.dispatch.inFlight w.clock w.calls body)
      (body.run d.observed p w) := by
  induction body generalizing w with
  | done ending =>
    exact ⟨rfl, (List.append_nil _).symm, rfl, rfl, rfl, rfl, rfl, rfl, fun _ h => h⟩
  | move tick rest ih =>
    have h := ih (w.onClock tick)
    exact ⟨h.ending, h.sent, h.clock, h.turn, h.users, h.component, h.stack, h.inFlight, h.known⟩
  | call entry inner catches rest ihInner ihRest =>
    have hchild := ran_call hstill ⟨entry, inner⟩ ihInner w
    rw [CallBody.run_call, Setting.trace_call]
    simp only [CallTree.run] at hchild ⊢
    generalize Setting.traceTree _ _ _ _ _ = child at *
    generalize entry.run d.observed p (inner.run d.observed p) w = r at *
    rw [hchild.ending]
    split
    · rename_i hunwound
      exact ⟨hunwound.1.symm, hchild.sent, hchild.clock, hchild.turn, hchild.users,
        hchild.component, hchild.stack, hchild.inFlight, hchild.known⟩
    · -- The rest starts where the call ended, in the same setting.
      have h := ihRest r.2
      rw [setting_congr _ _ hchild.users hchild.component, hchild.inFlight, hchild.clock,
        hchild.turn] at h
      exact hchild.after h

end Dispatcher

/-- In whatever world a tree of calls is run with a sink that moves no clock, the sink is given one
block for each call, after the blocks of the calls in its body. No section is left open or taken
away, and no call stays counted. -/
theorem nested_calls_trace (d : Dispatcher σ) (hstill : d.client.sink.Still) (p : Place)
    (tree : CallTree) (w : World (Observed σ)) :
    let traced := (d.observed.setting p w).traceTree w.dispatch.inFlight w.clock w.calls tree
    let after := tree.run d.observed p w
    after.1 = traced.ending ∧
      after.2.store.calls =
        w.store.calls ++ traced.ended.flatMap (EndedCall.block w.dispatch.component 0) ∧
      after.2.clock = traced.clock ∧
      d.observed.stack p after.2 = d.observed.stack p w ∧
      after.2.dispatch.inFlight = w.dispatch.inFlight := by
  have hran := Dispatcher.ran_call hstill (p := p) tree (Dispatcher.ran_body hstill tree.body) w
  exact ⟨hran.ending, hran.sent, hran.clock, hran.stack, hran.inFlight⟩

/-- A call in which a request fails and a third call is left by an unwinding that is caught. -/
def CallTree.sample : CallTree where
  entry := .rpc .unresolved
  body := .move (·.advance 5) <|
    .call (.request "get" "orders") (.move (·.advance 7) (.done .failed)) false <|
    .call (.rpc .unresolved) (.done .unwound) true <| .done .succeeded

theorem nested_calls_trace_sample :
    Dispatcher.quiet.client.sink.Still ∧
      (CallTree.sample.run Dispatcher.quiet.observed ⟨0, none, none⟩ .quiet).2.store.calls = [
        .count ⟨"server/GET/orders/_errors"⟩ 1,
        .flush ⟨"server/GET/orders"⟩, .flush ⟨"user:anonymous/server/GET/orders"⟩,
        .flush ⟨"server/rpc/_invalid"⟩, .flush ⟨"user:anonymous/server/rpc/_invalid"⟩,
        .elapsed ⟨"server/rpc/_invalid"⟩ 12 0, .elapsed ⟨"user:anonymous/server/rpc/_invalid"⟩ 12 0,
        .elapsed ⟨"server/rpc/_total"⟩ 12 0, .gauge ⟨"server/rpc/_concurrency"⟩ 1,
        .gauge ⟨"server/rpc/_invalid/_overhead"⟩ 0, .gauge ⟨"server/rpc/_overhead"⟩ 0,
        .flush ⟨"server/rpc/_invalid"⟩, .flush ⟨"user:anonymous/server/rpc/_invalid"⟩] := by
  have hstill : Dispatcher.quiet.client.sink.Still := Sink.still_discarding
  refine ⟨hstill, ?_⟩
  rw [(nested_calls_trace Dispatcher.quiet hstill ⟨0, none, none⟩ .sample .quiet).2.1]
  decide +kernel

end CallMetrics
