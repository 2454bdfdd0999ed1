import CallMetrics.Proofs.Engine.Observed

/-! Keys through the memo of joined texts. Whatever has been joined and forgotten before, the keys of
a call are the ones that are built of its component, type, operation and user, and no other key ever
stands in for one of them (`callKeysOr_eq`). -/

namespace CallMetrics
variable {σ : Type}

/-- The worlds that follow from a world by what a dispatcher does. Its memo is open to others, who may
join texts of their own; all else leaves alone what it keeps between its calls. -/
inductive World.Reached (d : Dispatcher σ) (start : World σ) : World σ → Prop
  | start : Reached d start start
  | begin {w : World σ} (h : Reached d start w) (p : Place) (type : CallType)
      (operation : OperationName) : Reached d start (d.begin p type operation w).2
  | close {w : World σ} (h : Reached d start w) (p : Place) (call : Invocation) (ending : Ending) :
      Reached d start (d.close p call ending w)
  | join {w : World σ} (h : Reached d start w) (left right : String) :
      Reached d start (Dispatcher.join left right w).2
  | aside {w w' : World σ} (h : Reached d start w) (heq : w'.dispatch = w.dispatch) :
      Reached d start w'

theorem World.Reached.component {d : Dispatcher σ} {start w : World σ} (h : start.Reached d w) :
    w.dispatch.component = start.dispatch.component := by
  induction h with
  | start => rfl
  | begin _ p type operation ih => exact (d.begun_begin p type operation _).component.trans ih
  | close _ p call ending ih => exact (d.closed_close p call _ ending).component.trans ih
  | join _ left right ih => exact (Dispatcher.join_component left right _).trans ih
  | aside _ heq ih => rw [heq, ih]

namespace Dispatcher
variable (d : Dispatcher σ) (p : Place)

/-- The keys of a call if other keys stood in for joined texts that are no keys. -/
def callKeysOr (standIn : MetricKey → MetricKey) (keyPrefix : String) (operation : OperationName)
    (w : World σ) : CallKeys × World σ :=
  let (user, w) := d.currentUser p w
  let (opKey, w) := joinKey keyPrefix operation.text
    (standIn (unjoinedOperationKey w.dispatch.component keyPrefix operation)) w
  let (userHead, w) := join d.userPrefix user.text w
  let (segment, w) := join userHead "/" w
  let (perUser, w) := joinKey segment opKey.text (standIn (userKey d.userPrefix user opKey)) w
  let (errors, w) :=
    joinKey opKey.text ("/" ++ Reserved.errors) (standIn (opKey.child Reserved.errors)) w
  let (overhead, w) :=
    joinKey opKey.text ("/" ++ Reserved.overhead) (standIn (opKey.child Reserved.overhead)) w
  (⟨opKey, perUser, errors, overhead⟩, w)

theorem callKeysOr_id (keyPrefix : String) (operation : OperationName) (w : World σ) :
    d.callKeysOr p id keyPrefix operation w = d.callKeys p keyPrefix operation w := by
  simp only [callKeysOr, callKeys, id_eq]

/-- All keys of a site's calls are joined, so it does not matter what would stand in for them. -/
theorem callKeysOr_eq (standIn : MetricKey → MetricKey) (component : ComponentKey)
    (type : CallType) (operation : OperationName) (w : World σ) :
    d.callKeysOr p standIn (sitePrefix component type) operation w =
      d.callKeys p (sitePrefix component type) operation w := by
  unfold callKeysOr callKeys
  -- Every text that is joined here has a slash within, so it is a key, and the fallback is not asked.
  have hjoin {left right : String} (fallback : MetricKey) (w : World σ)
      (h : '/' ∈ (left ++ right).toList) :
      joinKey left right fallback w = (⟨left ++ right⟩, (join left right w).2) :=
    Prod.ext (joinKey_fst w fallback h) (joinKey_snd w left right fallback)
  have hop (fallback : MetricKey) (w : World σ) :=
    hjoin fallback w (slash_mem_operationKey operation component type)
  have hchild (key : MetricKey) (name : String) (fallback : MetricKey) (w : World σ) :=
    hjoin fallback w (slash_mem_childKey key name)
  have huser (user : UserId) (key fallback : MetricKey) (w : World σ) :=
    hjoin fallback w (slash_mem_userKey d.userPrefix user key)
  obtain ⟨user, found⟩ := d.currentUser p w
  simp only [hop, join_fst, hchild, huser]

theorem callKeysOr_counted (standIn : MetricKey → MetricKey) (type : CallType)
    (operation : OperationName) (w : World σ) :
    d.callKeysOr p standIn (site type w).1.keyPrefix operation (counted type w) =
      ((d.begin p type operation w).1.keys,
        (d.callKeys p (site type w).1.keyPrefix operation (counted type w)).2) := by
  have hkeys : (d.begin p type operation w).1.keys =
      (d.callKeys p (site type w).1.keyPrefix operation (counted type w)).1 := by
    rw [begin_eq]
  rw [hkeys, site_keyPrefix, callKeysOr_eq]

end Dispatcher

/-- In every world that a configured dispatcher reaches, with a memo as small as may be, a call gets
the keys that are built of its component, type, operation and user. The keys are found after the call
has been counted in, and nothing stands in for them there. -/
theorem call_keys_built (config : ValidConfig) (client : Client σ) (identity : Identity)
    (logger : Logger) (stage : Stage σ) {w : World σ}
    (h : (World.started config stage).Reached (.ofConfig config client identity logger) w)
    (p : Place) (type : CallType) (operation : OperationName) :
    let d : Dispatcher σ := .ofConfig config client identity logger
    let site := (Dispatcher.site type w).1
    let keys := (d.begin p type operation w).1.keys
    site.keyPrefix = sitePrefix config.component type ∧
      keys.operation = operationKey config.component type operation ∧
      keys.user = userKey config.config.userPrefix (d.caller p w) keys.operation ∧
      keys.errors = keys.operation.child Reserved.errors ∧
      keys.overhead = keys.operation.child Reserved.overhead ∧
      ∀ standIn, d.callKeysOr p standIn site.keyPrefix operation (Dispatcher.counted type w) =
        (keys, (d.callKeys p site.keyPrefix operation (Dispatcher.counted type w)).2) := by
  intro d site keys
  have hcomponent : w.dispatch.component = config.component := h.component
  have hkeyed : site.keyPrefix = sitePrefix config.component type := by
    rw [← hcomponent]
    exact Dispatcher.site_keyPrefix w type
  have hkeys : keys = .of config.component config.config.userPrefix (d.caller p w) type operation := by
    rw [← hcomponent]
    exact congrArg Invocation.keys (d.begin_fst p type operation w)
  have hstandIn (standIn : MetricKey → MetricKey) :=
    d.callKeysOr_counted p standIn type operation w
  exact ⟨hkeyed, by rw [hkeys]; rfl, by rw [hkeys]; rfl, by rw [hkeys]; rfl, by rw [hkeys]; rfl,
    hstandIn⟩

/-- The default settings, but for a memo that keeps one text for each left part. -/
def ValidConfig.forgetful : ValidConfig := ⟨{ concatCap := 1 }, by decide +kernel, by decide +kernel⟩

/-- A dispatcher that does not know its users and joins nearly every text anew. -/
def Dispatcher.forgetful : Dispatcher Unit :=
  .ofConfig .forgetful quiet.client (.failing "unknown") ⟨.silent, ∅⟩

/-- After a first call, for which two texts were joined to one left part, one more than are kept. -/
def World.afterCall : World Unit :=
  (Dispatcher.forgetful.begin ⟨0, none, none⟩ .rpc .unresolved
    (.started .forgetful ⟨.started 0 0, ()⟩)).2

theorem World.reached_afterCall :
    (World.started .forgetful ⟨.started 0 0, ()⟩).Reached .forgetful .afterCall :=
  World.Reached.start.begin _ _ _

theorem call_keys_built_forgetful :
    (World.started .forgetful ⟨.started 0 0, ()⟩).Reached .forgetful .afterCall ∧
      (Dispatcher.forgetful.begin ⟨0, none, none⟩ .get .unresolved .afterCall).1.keys.user =
        ⟨"user:anonymous/server/GET/_invalid"⟩ := by
  have hkeys := call_keys_built _ _ _ _ _ World.reached_afterCall ⟨0, none, none⟩ .get .unresolved
  refine ⟨World.reached_afterCall, hkeys.2.2.1.trans ?_⟩
  rw [hkeys.2.1]
  rfl

end CallMetrics
