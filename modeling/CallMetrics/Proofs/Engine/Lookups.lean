import CallMetrics.Proofs.Engine.Steps

/-! What the steps of a call ask of the memo of joined texts. Beginning a call asks for six texts,
and for two more if it makes the site of its type (`asked_begin`); ending it asks for none. The
history of snapshots is left alone by both. -/

namespace CallMetrics
variable {σ : Type}

namespace JoinCache
variable {c c' c'' : JoinCache} {m n : Nat}

/-- The memo has been asked for `n` texts more. -/
def AskedMore (n : Nat) (c c' : JoinCache) : Prop := ∀ before, c.Asked before → c'.Asked (before + n)

theorem AskedMore.of_eq (h : c' = c) : c.AskedMore 0 c' := by
  rintro before hbefore
  rw [h]
  exact hbefore

theorem AskedMore.trans (h : c.AskedMore m c') (h' : c'.AskedMore n c'') :
    c.AskedMore (m + n) c'' := by
  intro before hbefore
  rw [← Nat.add_assoc]
  exact h' _ (h _ hbefore)

theorem askedMore_join (c : JoinCache) (left right : String) :
    c.AskedMore 1 (c.join left right).2 := fun _ hbefore => hbefore.join left right

end JoinCache

/-- The memo has been asked `n` times, and neither sites nor history have changed. -/
structure World.Looked (n : Nat) (w w' : World σ) : Prop where
  asked : w.dispatch.cache.AskedMore n w'.dispatch.cache
  site? : w'.dispatch.site? = w.dispatch.site?
  history : w'.history = w.history

namespace World

theorem Looked.refl (w : World σ) : w.Looked 0 w := ⟨.of_eq rfl, rfl, rfl⟩

theorem Looked.trans {m n : Nat} {a b c : World σ} (h : a.Looked m b) (h' : b.Looked n c) :
    a.Looked (m + n) c :=
  ⟨h.asked.trans h'.asked, h'.site?.trans h.site?, h'.history.trans h.history⟩

@[simp] theorem logged_history (w : World σ) (l : Logger) (e : LogEvent) :
    (w.logged l e).history = w.history := by unfold logged; split <;> rfl

theorem looked_logged (w : World σ) (l : Logger) (e : LogEvent) : w.Looked 0 (w.logged l e) :=
  ⟨.of_eq (by rw [logged_dispatch]), by rw [logged_dispatch], logged_history w l e⟩

end World

namespace DispatchState

@[simp] theorem cache_setInFlight (s : DispatchState) (type : CallType) (count : InFlight) :
    (s.setInFlight type count).cache = s.cache := by
  unfold setInFlight
  split <;> rfl

end DispatchState

namespace Client
variable (c : Client σ) (key : MetricKey) (w : World σ)

@[simp] theorem history_settle (event : String) (answer : Except SinkError Unit × Stage σ) :
    (c.settle event key answer w).history = w.history := by
  unfold settle
  cases answer.1 with
  | ok u => rfl
  | error e => exact World.logged_history _ _ _

@[simp] theorem history_emit (kind : MetricKind) (values : List Int64) :
    (c.emit key kind values w).history = w.history := c.history_settle _ _ _ _

@[simp] theorem history_flush : (c.flush key w).history = w.history := c.history_settle _ _ _ _

@[simp] theorem history_recordReading (r : TimerReading) :
    (c.recordReading key r w).history = w.history := c.history_emit _ _ _ _

@[simp] theorem history_recordCount (delta : Int64) :
    (c.recordCount key delta w).history = w.history := c.history_emit _ _ _ _

@[simp] theorem history_recordGauge (value : Int64) :
    (c.recordGauge key value w).history = w.history := c.history_emit _ _ _ _

@[simp] theorem history_recordSample (value : Int64) :
    (c.recordSample key value w).history = w.history := c.history_emit _ _ _ _

theorem history_finish (p : Place) : (c.finish p key w).2.history = w.history := by
  have htimer : (c.timer.finish p key.text w).2.history = w.history := rfl
  unfold finish finishAs
  generalize c.timer.finish p key.text w = found at *
  obtain ⟨answer, w'⟩ := found
  cases answer with
  | ok r => exact (c.history_recordReading _ _ _).trans htimer
  | error m => exact (World.logged_history _ _ _).trans htimer

end Client

namespace Dispatcher
variable (d : Dispatcher σ) (p : Place) (w : World σ)

theorem looked_join (left right : String) : w.Looked 1 (join left right w).2 :=
  ⟨w.dispatch.cache.askedMore_join left right, rfl, rfl⟩

theorem looked_joinKey (left right : String) (fallback : MetricKey) :
    w.Looked 1 (joinKey left right fallback w).2 := by
  rw [joinKey_snd]
  exact looked_join w left right

theorem looked_currentUser : w.Looked 0 (d.currentUser p w).2 := by
  unfold currentUser
  cases d.lookupUser p w with
  | ok user => exact .refl w
  | error e => exact w.looked_logged _ _

theorem looked_callKeys (keyPrefix : String) (operation : OperationName) :
    w.Looked 6 (d.callKeys p keyPrefix operation w).2 := by
  simp only [callKeys]
  refine World.Looked.trans (m := 5) ?_ (looked_joinKey _ _ _ _)
  refine World.Looked.trans (m := 4) ?_ (looked_joinKey _ _ _ _)
  refine World.Looked.trans (m := 3) ?_ (looked_joinKey _ _ _ _)
  refine World.Looked.trans (m := 2) ?_ (looked_join _ _ _)
  refine World.Looked.trans (m := 1) ?_ (looked_join _ _ _)
  exact (d.looked_currentUser p w).trans (looked_joinKey _ _ _ _)

theorem looked_joinPrefix (type : CallType) : w.Looked 2 (joinPrefix type w).2 :=
  (looked_join w _ _).trans (looked_join _ _ _)

section Begin
variable (type : CallType) (operation : OperationName)

theorem asked_site :
    w.dispatch.cache.AskedMore (if (w.dispatch.site? type).isSome then 0 else 2)
      (site type w).2.dispatch.cache := by
  generalize hn : (if (w.dispatch.site? type).isSome then 0 else 2) = n
  unfold site
  split
  · rename_i found h
    rw [h] at hn
    exact hn ▸ .of_eq rfl
  · rename_i h
    rw [h] at hn
    exact hn ▸ (looked_joinPrefix w type).asked

theorem known_site (t : CallType) : ((site type w).2.dispatch.site? t).isSome ↔
    t = type ∨ (w.dispatch.site? t).isSome := by
  unfold site
  split
  · rename_i found h
    refine ⟨.inr, ?_⟩
    rintro (rfl | ht)
    · exact Option.isSome_of_eq_some h
    · exact ht
  · simp only [openSite, DispatchState.site?_withSite]
    rw [(looked_joinPrefix w type).site?]
    by_cases ht : t = type <;> simp [ht]

theorem history_site : (site type w).2.history = w.history := by
  unfold site
  split
  · rfl
  · exact (looked_joinPrefix w type).history

theorem cache_counted :
    (counted type w).dispatch.cache = (site type w).2.dispatch.cache := by
  unfold counted setInFlight
  exact DispatchState.cache_setInFlight _ _ _

theorem known_counted (t : CallType) : ((counted type w).dispatch.site? t).isSome ↔
    t = type ∨ (w.dispatch.site? t).isSome := by
  rw [← known_site w type t]
  unfold counted setInFlight
  rw [DispatchState.isSome_site?_setInFlight]

theorem history_counted : (counted type w).history = w.history := history_site w type

theorem asked_begin :
    w.dispatch.cache.AskedMore ((if (w.dispatch.site? type).isSome then 0 else 2) + 6)
      (d.begin p type operation w).2.dispatch.cache := by
  have hkeys := (d.looked_callKeys p (counted type w) (site type w).1.keyPrefix operation).asked
  rw [cache_counted] at hkeys
  have hasked := (asked_site w type).trans hkeys
  rw [begin_eq]
  generalize d.callKeys p (site type w).1.keyPrefix operation (counted type w) = found at *
  exact hasked

theorem known_begin (t : CallType) : ((d.begin p type operation w).2.dispatch.site? t).isSome ↔
    t = type ∨ (w.dispatch.site? t).isSome := by
  have hkeys := (d.looked_callKeys p (counted type w) (site type w).1.keyPrefix operation).site?
  rw [← known_counted w type t, ← hkeys, begin_eq]
  generalize d.callKeys p (site type w).1.keyPrefix operation (counted type w) = found
  rfl

theorem history_begin : (d.begin p type operation w).2.history = w.history := by
  have hkeys := (d.looked_callKeys p (counted type w) (site type w).1.keyPrefix operation).history
  rw [← history_counted w type, ← hkeys, begin_eq]
  generalize d.callKeys p (site type w).1.keyPrefix operation (counted type w) = found
  rfl

end Begin

section Close
variable (call : Invocation) (ending : Ending)

theorem history_recordCall : (d.recordCall p call w).history = w.history := by
  have hfinish := d.client.history_finish call.keys.operation w p
  simp only [recordCall]
  generalize d.client.finish p call.keys.operation w = found at *
  obtain ⟨reading, w'⟩ := found
  cases reading <;> simpa using hfinish

theorem history_close : (d.close p call ending w).history = w.history := by
  have hsettle : (d.settle p call w ending).history = w.history := by
    cases ending with
    | succeeded => simp [settle, succeed, history_recordCall]
    | failed =>
      rw [settle, fail, Client.history_recordCount]
      rfl
    | unwound =>
      rw [settle, abandon, World.logged_history]
      rfl
  rw [close_eq, ← hsettle]
  exact (d.client.history_flush _ _).trans (d.client.history_flush _ _)

theorem cache_close : (d.close p call ending w).dispatch.cache = w.dispatch.cache := by
  rw [close_eq, ← (d.ended_flushed p call w ending).dispatch]
  exact DispatchState.cache_setInFlight _ _ _

theorem known_close (t : CallType) :
    ((d.close p call ending w).dispatch.site? t).isSome = (w.dispatch.site? t).isSome := by
  rw [close_eq, ← (d.ended_flushed p call w ending).dispatch]
  exact DispatchState.isSome_site?_setInFlight _ _ _ _

end Close

theorem looked_requestKeys (method path : String) :
    w.Looked 0 (d.requestKeys method path w).2 := by
  unfold requestKeys
  cases CallType.ofMethod method with
  | ok type =>
    cases OperationName.read path with
    | ok operation => exact .refl w
    | error e => exact w.looked_logged _ _
  | error e =>
    cases OperationName.read path with
    | ok operation => exact w.looked_logged _ _
    | error e' => exact (w.looked_logged _ _).trans (World.looked_logged _ _ _)

end Dispatcher
end CallMetrics
