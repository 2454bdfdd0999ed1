import CallMetrics.Proofs.Engine.Observed

/-! Where the metrics of calls are stored. A call that ends updates some metrics of its client's
registry, each under a key of its own (`updated_close`). Operations are free to bear any name, so two
metrics share storage just if they are the same one or the name of an operation imitates a reserved
name (`slot_eq_iff`). -/

namespace CallMetrics
variable {σ : Type}

structure Slot where
  family : MetricFamily
  key : MetricKey
  deriving DecidableEq

structure MetricUpdate where
  slot : Slot
  time : Int64
  value : Int64

namespace Registry

def update (r : Registry) (u : MetricUpdate) : Registry :=
  match u.slot.family with
  | .average => r.updateAverage u.slot.key u.time u.value
  | .point => r.updatePoint u.slot.key u.time u.value
  | .counter => r.addCount u.slot.key u.value

/-- The second registry follows from the first one by updates of the given metrics, in that order. -/
def Updated (slots : List Slot) (r r' : Registry) : Prop :=
  ∃ updates : List MetricUpdate, updates.map (·.slot) = slots ∧ r' = updates.foldl update r

theorem Updated.refl (r : Registry) : Updated [] r r := ⟨[], rfl, rfl⟩

theorem Updated.trans {slots slots' : List Slot} {a b c : Registry} (h : Updated slots a b)
    (h' : Updated slots' b c) : Updated (slots ++ slots') a c := by
  obtain ⟨us, hus, rfl⟩ := h
  obtain ⟨vs, hvs, rfl⟩ := h'
  exact ⟨us ++ vs, by rw [List.map_append, hus, hvs], by rw [List.foldl_append]⟩

end Registry

namespace Client
variable (c : Client σ) (key : MetricKey) (w : World σ)

theorem updated_recordReading (r : TimerReading) :
    Registry.Updated [⟨.average, key⟩, ⟨.average, key.child Reserved.cpu⟩] (c.registry w)
      (c.registry (c.recordReading key r w)) := by
  refine ⟨[⟨⟨.average, key⟩, w.clock.wall, r.elapsedMillis⟩,
    ⟨⟨.average, key.child Reserved.cpu⟩, w.clock.wall, r.cpuNanos⟩], rfl, ?_⟩
  rw [recordReading, recordTimes, registry_emit, registry_onRegistry]
  rfl

theorem updated_recordGauge (value : Int64) :
    Registry.Updated [⟨.point, key⟩] (c.registry w) (c.registry (c.recordGauge key value w)) := by
  refine ⟨[⟨⟨.point, key⟩, w.clock.wall, value⟩], rfl, ?_⟩
  rw [recordGauge, registry_emit, registry_onRegistry]
  rfl

theorem updated_recordSample (value : Int64) :
    Registry.Updated [⟨.average, key⟩] (c.registry w) (c.registry (c.recordSample key value w)) := by
  refine ⟨[⟨⟨.average, key⟩, w.clock.wall, value⟩], rfl, ?_⟩
  rw [recordSample, registry_emit, registry_onRegistry]
  rfl

theorem updated_recordCount (delta : Int64) :
    Registry.Updated [⟨.counter, key⟩] (c.registry w) (c.registry (c.recordCount key delta w)) := by
  refine ⟨[⟨⟨.counter, key⟩, w.clock.wall, delta⟩], rfl, ?_⟩
  rw [registry_recordCount]
  rfl

theorem updated_finish (p : Place) :
    Registry.Updated (match (c.finish p key w).1 with
      | some _ => [⟨.average, key⟩, ⟨.average, key.child Reserved.cpu⟩]
      | none => []) (c.registry w) (c.registry (c.finish p key w).2) := by
  have htimer : c.registry (c.timer.finish p key.text w).2 = c.registry w := rfl
  unfold finish finishAs
  generalize c.timer.finish p key.text w = found at *
  obtain ⟨answer, w'⟩ := found
  rw [← htimer]
  cases answer with
  | ok r => exact c.updated_recordReading key w' r
  | error m =>
    simp only [warn, registry, World.logged_registries]
    exact .refl _

end Client

/-- The metrics that calls are recorded in, but for those of their users. -/
inductive CallMetric
  | elapsed
  | cpu
  | total
  | totalCpu
  | concurrency
  | overhead
  | siteOverhead
  | errors
  deriving DecidableEq, Repr

namespace CallMetric

def family : CallMetric → MetricFamily
  | concurrency => .point
  | errors => .counter
  | _ => .average

def key (component : ComponentKey) (call : Invocation) : CallMetric → MetricKey
  | elapsed => call.keys.operation
  | cpu => call.keys.operation.child Reserved.cpu
  | total => siteKey component call.type Reserved.total
  | totalCpu => (siteKey component call.type Reserved.total).child Reserved.cpu
  | concurrency => siteKey component call.type Reserved.concurrency
  | overhead => call.keys.overhead
  | siteOverhead => siteKey component call.type Reserved.overhead
  | errors => call.keys.errors

def slot (component : ComponentKey) (call : Invocation) (m : CallMetric) : Slot :=
  ⟨m.family, m.key component call⟩

/-- All calls of a type share the metric, whatever their operations are. -/
def OfSite : CallMetric → Prop
  | total | totalCpu | concurrency | siteOverhead => True
  | _ => False

end CallMetric

namespace Invocation

def userSlots (call : Invocation) : List Slot :=
  [⟨.average, call.keys.user⟩, ⟨.average, call.keys.user.child Reserved.cpu⟩]

/-- What a call updates when it ends: its metrics, and those of its user if it has a reading. -/
def updatedSlots (component : ComponentKey) (call : Invocation) (timed : Bool) :
    Ending → List Slot
  | .succeeded =>
    (if timed then
      [CallMetric.elapsed, .cpu].map (·.slot component call) ++ call.userSlots ++
        [CallMetric.total, .totalCpu].map (·.slot component call)
    else []) ++ [CallMetric.concurrency, .overhead, .siteOverhead].map (·.slot component call)
  | .failed => [CallMetric.errors.slot component call]
  | .unwound => []

end Invocation

namespace Dispatcher
variable (d : Dispatcher σ) (p : Place) (call : Invocation) (w : World σ)

theorem updated_recordCall : Registry.Updated
    ((if (d.reading p call w).isSome then
        [CallMetric.elapsed, .cpu].map (·.slot w.dispatch.component call) ++ call.userSlots ++
          [CallMetric.total, .totalCpu].map (·.slot w.dispatch.component call)
      else []) ++ [CallMetric.concurrency.slot w.dispatch.component call])
    (d.client.registry w) (d.client.registry (d.recordCall p call w)) := by
  have hfinish := d.ended_finish p call w
  have hupdated := d.client.updated_finish call.keys.operation w p
  unfold reading at *
  simp only [recordCall]
  generalize d.client.finish p call.keys.operation w = found at *
  obtain ⟨reading, w'⟩ := found
  cases reading with
  | none =>
    rw [hfinish.siteMetric call Reserved.concurrency]
    exact hupdated.trans (d.client.updated_recordGauge _ _ _)
  | some r =>
    -- each recording leaves the keys of the site as they were for the next one
    have huser := hfinish.reading call.keys.user r
    have htotal := huser.reading (siteMetric call Reserved.total w') r
    rw [htotal.siteMetric call Reserved.concurrency, hfinish.siteMetric call Reserved.total]
    exact ((hupdated.trans (d.client.updated_recordReading _ _ r)).trans
      (d.client.updated_recordReading _ _ r)).trans (d.client.updated_recordGauge _ _ _)

theorem updated_settle (ending : Ending) : Registry.Updated
    (call.updatedSlots w.dispatch.component (d.reading p call w).isSome ending)
    (d.client.registry w) (d.client.registry (d.settle p call w ending)) := by
  cases ending with
  | succeeded =>
    have hrecord := d.ended_recordCall p call w
    have hupdated := d.updated_recordCall p call w
    simp only [settle, succeed, hrecord.siteMetric call Reserved.overhead]
    have hall := (hupdated.trans (d.client.updated_recordSample call.keys.overhead _
      (d.overhead p call w))).trans (d.client.updated_recordSample
        (siteKey w.dispatch.component call.type Reserved.overhead) _ (d.overhead p call w))
    cases hreading : (d.reading p call w).isSome <;> rw [hreading] at hall <;> exact hall
  | failed =>
    have hcancel : d.client.registry (d.client.cancel p w).2 = d.client.registry w := rfl
    have hcount := d.client.updated_recordCount call.keys.errors (d.client.cancel p w).2 1
    rw [hcancel] at hcount
    exact hcount
  | unwound =>
    simp only [settle, abandon, Client.registry, World.logged_registries]
    exact .refl _

/-- The end of a call updates the metrics of the call, and nothing else in its client's registry. -/
theorem updated_close (ending : Ending) : Registry.Updated
    (call.updatedSlots w.dispatch.component (d.reading p call w).isSome ending)
    (d.client.registry w) (d.client.registry (d.close p call ending w)) := by
  have hflushed : d.client.registry (d.close p call ending w) =
      d.client.registry (d.settle p call w ending) := by
    rw [close_eq]
    exact (d.client.registry_flush _ _).trans (d.client.registry_flush _ _)
  rw [hflushed]
  exact d.updated_settle p call w ending

end Dispatcher

def joined : Option String → String → String
  | none, name => name
  | some before, name => before ++ "/" ++ name

theorem joined_inj {x y : Option String} {a b : String} (ha : '/' ∉ a.toList) (hb : '/' ∉ b.toList) :
    joined x a = joined y b ↔ x = y ∧ a = b := by
  refine ⟨fun h => ?_, fun h => by rw [h.1, h.2]⟩
  cases x with
  | none =>
    cases y with
    | none => exact ⟨rfl, h⟩
    | some y =>
      have ha' : a = y ++ "/" ++ b := h
      exact absurd (by simp [ha']) ha
  | some x =>
    cases y with
    | none =>
      have hb' : x ++ "/" ++ a = b := h
      exact absurd (by simp [← hb']) hb
    | some y =>
      -- read from their ends, both texts have the first slash right after the name
      have hslash : "/".toList = ['/'] := rfl
      have hreversed := congrArg (fun s : String => s.toList.reverse) h
      simp only [joined, String.toList_append, List.reverse_append, hslash, List.reverse_singleton,
        List.singleton_append] at hreversed
      obtain ⟨hname, hbefore⟩ := eq_of_append_slash (by simpa using ha) (by simpa using hb) hreversed
      exact ⟨congrArg some (String.toList_inj.1 (List.reverse_inj.1 hbefore)),
        String.toList_inj.1 (List.reverse_inj.1 hname)⟩

namespace CallMetric

/-- The reserved name at the end of the key of a metric, if there is one. -/
def name : CallMetric → String
  | cpu | totalCpu => Reserved.cpu
  | total => Reserved.total
  | concurrency => Reserved.concurrency
  | overhead | siteOverhead => Reserved.overhead
  | errors => Reserved.errors
  | elapsed => ""

theorem noSlash_name (m : CallMetric) : '/' ∉ m.name.toList := by cases m <;> decide

def before? (operation : OperationName) : CallMetric → Option String
  | cpu | overhead | errors => some operation.text
  | totalCpu => some Reserved.total
  | _ => none

/-- What stands in the key of a metric after the site. -/
def tail (operation : OperationName) : CallMetric → String
  | elapsed => operation.text
  | m => joined (m.before? operation) m.name

/-- The first operation is named so that its metric is stored where another metric of the second one
is stored. -/
def Imitates (operation operation' : OperationName) : CallMetric → CallMetric → Prop
  | elapsed, cpu => operation.text = operation'.text ++ "/" ++ Reserved.cpu
  | elapsed, total => operation.text = Reserved.total
  | elapsed, totalCpu => operation.text = Reserved.total ++ "/" ++ Reserved.cpu
  | elapsed, overhead => operation.text = operation'.text ++ "/" ++ Reserved.overhead
  | elapsed, siteOverhead => operation.text = Reserved.overhead
  | cpu, totalCpu => operation.text = Reserved.total
  | _, _ => False

theorem key_begin (d : Dispatcher σ) (p : Place) (type : CallType) (operation : OperationName)
    (w : World σ) (m : CallMetric) :
    m.key w.dispatch.component (d.begin p type operation w).1 =
      ⟨sitePrefix w.dispatch.component type ++ m.tail operation⟩ := by
  rw [d.begin_fst]
  cases m <;> simp only [key, Dispatcher.nextCall, CallKeys.of, operationKey, siteKey,
    MetricKey.child, tail, before?, name, joined, String.append_assoc]

theorem tail_of_ne_elapsed {m : CallMetric} (hne : m ≠ elapsed) (operation : OperationName) :
    m.tail operation = joined (m.before? operation) m.name := by
  cases m <;> simp [tail] at hne ⊢

/-- Metrics with a reserved name are told apart by the name and what stands before it. -/
theorem tail_eq_iff_of_name {m m' : CallMetric} (hne : m ≠ elapsed) (hne' : m' ≠ elapsed)
    (hfamily : m.family = m'.family) (operation operation' : OperationName) :
    m.tail operation = m'.tail operation' ↔ (m = m' ∧ (m.OfSite ∨ operation = operation')) ∨
      m.Imitates operation operation' m' ∨ m'.Imitates operation' operation m := by
  rw [tail_of_ne_elapsed hne, tail_of_ne_elapsed hne',
    joined_inj m.noSlash_name m'.noSlash_name]
  cases m <;> cases m' <;> simp [before?, name, OfSite, Imitates, family, OperationName.text_inj,
    Reserved.cpu, Reserved.total, Reserved.overhead, eq_comm] at hne hne' hfamily ⊢

/-- An operation may have the name that stands in the key of any other average. -/
theorem imitates_elapsed_iff {m : CallMetric} (hne : m ≠ elapsed) (hfamily : elapsed.family = m.family)
    (operation operation' : OperationName) :
    elapsed.Imitates operation operation' m ↔ operation.text = m.tail operation' := by
  cases m <;> simp [Imitates, tail, before?, name, joined, family] at hne hfamily ⊢

theorem tail_eq_iff {m m' : CallMetric} (hfamily : m.family = m'.family)
    (operation operation' : OperationName) :
    m.tail operation = m'.tail operation' ↔ (m = m' ∧ (m.OfSite ∨ operation = operation')) ∨
      m.Imitates operation operation' m' ∨ m'.Imitates operation' operation m := by
  have hno : ∀ (o o' : OperationName) (m : CallMetric), ¬m.Imitates o o' elapsed := by
    intro o o' m
    cases m <;> exact id
  by_cases hm : m = elapsed
  · subst hm
    by_cases hm' : m' = elapsed
    · subst hm'
      simp [tail, OfSite, hno, OperationName.text_inj]
    · simp [imitates_elapsed_iff hm' hfamily, hno, tail, Ne.symm hm']
  · by_cases hm' : m' = elapsed
    · subst hm'
      simp [imitates_elapsed_iff hm hfamily.symm, hno, tail, hm, eq_comm]
    · exact tail_eq_iff_of_name hm hm' hfamily operation operation'

theorem slot_eq_iff (d : Dispatcher σ) (p p' : Place) {w w' : World σ}
    (hcomponent : w'.dispatch.component = w.dispatch.component) (type type' : CallType)
    (operation operation' : OperationName) (m m' : CallMetric) :
    m.slot w.dispatch.component (d.begin p type operation w).1 =
        m'.slot w.dispatch.component (d.begin p' type' operation' w').1 ↔
      m.family = m'.family ∧ type = type' ∧ ((m = m' ∧ (m.OfSite ∨ operation = operation')) ∨
        m.Imitates operation operation' m' ∨ m'.Imitates operation' operation m) := by
  have hkey := key_begin d p type operation w m
  have hkey' := key_begin d p' type' operation' w' m'
  rw [hcomponent] at hkey'
  rw [slot, slot, hkey, hkey', Slot.mk.injEq, MetricKey.mk.injEq, sitePrefix_append_inj]
  constructor
  · rintro ⟨hfamily, htype, htail⟩
    exact ⟨hfamily, htype, (tail_eq_iff hfamily _ _).1 htail⟩
  · rintro ⟨hfamily, htype, hcase⟩
    exact ⟨hfamily, htype, (tail_eq_iff hfamily _ _).2 hcase⟩

end CallMetric

/-- Calls that end update the metrics listed for them. Two of these share storage just if they are the
same metric of one type, and of one operation unless all operations of the type share it, or if they
belong to one type and one operation has a name that makes up the reserved part of the other key. -/
theorem storage_shared_iff (d : Dispatcher σ) (p p' : Place) {w w' : World σ}
    (hcomponent : w'.dispatch.component = w.dispatch.component) (type type' : CallType)
    (operation operation' : OperationName) :
    let call := (d.begin p type operation w).1
    let call' := (d.begin p' type' operation' w').1
    (∀ (ended : World σ) (ending : Ending),
      Registry.Updated (call.updatedSlots ended.dispatch.component
        (d.reading p call ended).isSome ending)
        (d.client.registry ended) (d.client.registry (d.close p call ending ended))) ∧
    ∀ m m' : CallMetric,
      m.slot w.dispatch.component call = m'.slot w.dispatch.component call' ↔
        m.family = m'.family ∧ type = type' ∧ ((m = m' ∧ (m.OfSite ∨ operation = operation')) ∨
          m.Imitates operation operation' m' ∨ m'.Imitates operation' operation m) :=
  ⟨fun ended ending => d.updated_close p _ ended ending,
    fun m m' => CallMetric.slot_eq_iff d p p' hcomponent type type' operation operation' m m'⟩

def OperationName.namedTotal : OperationName := ⟨Reserved.total, by decide +kernel⟩

/-- A call of an operation with a reserved name begins in a world where nothing else has. -/
def begunTotal : Invocation × World (Observed Unit) :=
  Dispatcher.quiet.observed.begin ⟨0, none, none⟩ .rpc .namedTotal .quiet

/-- Its elapsed time is stored with the total of its site, and both are updated when it ends. -/
theorem elapsed_stored_with_total :
    let slots := begunTotal.1.updatedSlots begunTotal.2.dispatch.component
      (Dispatcher.quiet.observed.reading ⟨0, none, none⟩ begunTotal.1 begunTotal.2).isSome .succeeded
    CallMetric.elapsed.slot begunTotal.2.dispatch.component begunTotal.1 ∈ slots ∧
      CallMetric.total.slot begunTotal.2.dispatch.component begunTotal.1 ∈ slots ∧
      CallMetric.elapsed.slot begunTotal.2.dispatch.component begunTotal.1 =
        CallMetric.total.slot begunTotal.2.dispatch.component begunTotal.1 ∧
      CallMetric.elapsed ≠ .total := by
  have hbegun := Dispatcher.quiet.observed.begun_begin ⟨0, none, none⟩ .rpc .namedTotal .quiet
  -- the frame that the call opened is the only one on its stack
  have hreading : (Dispatcher.quiet.observed.reading ⟨0, none, none⟩ begunTotal.1
      begunTotal.2).isSome = true := by
    rw [Dispatcher.reading_eq, begunTotal, Dispatcher.begin_fst, hbegun.stack]
    exact congrArg (fun r => r.1.toOption.isSome) (endFrame_opened _ _ _ _)
  have hshared : CallMetric.elapsed.slot begunTotal.2.dispatch.component begunTotal.1 =
      CallMetric.total.slot begunTotal.2.dispatch.component begunTotal.1 := by
    rw [begunTotal, hbegun.component]
    exact (CallMetric.slot_eq_iff _ _ ⟨0, none, none⟩ rfl .rpc .rpc .namedTotal .namedTotal
      .elapsed .total).2 ⟨rfl, rfl, .inr (.inl rfl)⟩
  intro slots
  have hslots : slots = begunTotal.1.updatedSlots begunTotal.2.dispatch.component true .succeeded :=
    congrArg (begunTotal.1.updatedSlots begunTotal.2.dispatch.component · .succeeded) hreading
  rw [hslots]
  exact ⟨by simp [Invocation.updatedSlots], by simp [Invocation.updatedSlots], hshared, by decide⟩

theorem storage_shared_iff_namedTotal :
    World.quiet.dispatch.component = World.quiet.dispatch.component ∧
      CallMetric.cpu.slot World.quiet.dispatch.component begunTotal.1 =
        CallMetric.totalCpu.slot World.quiet.dispatch.component begunTotal.1 := by
  refine ⟨rfl, ?_⟩
  have hshared := (storage_shared_iff Dispatcher.quiet.observed ⟨0, none, none⟩ ⟨0, none, none⟩
    (rfl : World.quiet.dispatch.component = World.quiet.dispatch.component) .rpc .rpc .namedTotal
    .namedTotal).2 .cpu .totalCpu
  exact hshared.2 ⟨rfl, rfl, .inr (.inl rfl)⟩

end CallMetrics
