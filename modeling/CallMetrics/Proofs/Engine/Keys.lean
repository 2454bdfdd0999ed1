import CallMetrics.Engine.Dispatcher
import CallMetrics.Proofs.Engine.Recording

/-! The keys of a call. Whatever the memo of joined texts holds, a call gets the keys that are built
of the component, its type, its operation and its user (`callKeys_fst`). Finding a site or keys
leaves the sinks, the sections and the counts of running calls as they are (`World.Aside`). -/

namespace CallMetrics
variable {σ : Type}

/-- Texts without a slash are told apart by what stands before the first slash. -/
theorem eq_of_append_slash {a b rest rest' : List Char} (ha : '/' ∉ a) (hb : '/' ∉ b)
    (h : a ++ '/' :: rest = b ++ '/' :: rest') : a = b ∧ rest = rest' := by
  induction a generalizing b with
  | nil =>
    cases b with
    | nil => exact ⟨rfl, (List.cons.inj h).2⟩
    | cons x b => exact absurd (List.mem_cons.2 (.inl (List.cons.inj h).1)) hb
  | cons x a ih =>
    cases b with
    | nil => exact absurd (List.mem_cons.2 (.inl (List.cons.inj h).1.symm)) ha
    | cons y b =>
      obtain ⟨hx, hrest⟩ := List.cons.inj h
      obtain ⟨hab, hr⟩ := ih (fun hm => ha (List.mem_cons_of_mem x hm))
        (fun hm => hb (List.mem_cons_of_mem y hm)) hrest
      exact ⟨by rw [hx, hab], hr⟩

theorem ComponentKey.text_inj {a b : ComponentKey} : a.text = b.text ↔ a = b := by
  cases a
  cases b
  simp

/-- Components and types hold no slash, so the prefix of a site tells where each of them ends. -/
theorem sitePrefix_append_eq_iff {component component' : ComponentKey} {type type' : CallType}
    {s s' : String} : sitePrefix component type ++ s = sitePrefix component' type' ++ s' ↔
      component = component' ∧ type = type' ∧ s = s' := by
  refine ⟨fun h => ?_, fun h => by rw [h.1, h.2.1, h.2.2]⟩
  have htext := congrArg String.toList h
  simp only [sitePrefix, String.toList_append, List.append_assoc] at htext
  obtain ⟨hcomponent, htext⟩ := eq_of_append_slash component.noSlash component'.noSlash htext
  obtain ⟨htype, hrest⟩ := eq_of_append_slash type.noSlash type'.noSlash htext
  exact ⟨ComponentKey.text_inj.1 (String.toList_inj.1 hcomponent),
    CallType.eq_of_text (String.toList_inj.1 htype), String.toList_inj.1 hrest⟩

theorem sitePrefix_append_inj {component : ComponentKey} {type type' : CallType} {s s' : String} :
    sitePrefix component type ++ s = sitePrefix component type' ++ s' ↔ type = type' ∧ s = s' :=
  sitePrefix_append_eq_iff.trans (and_iff_right rfl)

theorem OperationName.text_inj {a b : OperationName} : a.text = b.text ↔ a = b :=
  ⟨eq_of_text, congrArg text⟩

theorem operationKey_inj {component : ComponentKey} {type type' : CallType}
    {operation operation' : OperationName} :
    operationKey component type operation = operationKey component type' operation' ↔
      type = type' ∧ operation = operation' := by
  rw [operationKey, operationKey, MetricKey.mk.injEq, sitePrefix_append_inj, OperationName.text_inj]

theorem toList_operationKey (component : ComponentKey) (type : CallType)
    (operation : OperationName) : (operationKey component type operation).text.toList =
      component.text.toList ++ '/' :: (type.text.toList ++ '/' :: operation.text.toList) := by
  simp [operationKey, sitePrefix]

theorem MetricKey.child_inj {a b : MetricKey} {name : String} :
    a.child name = b.child name ↔ a = b := by
  refine ⟨fun h => MetricKey.eq_of_text (String.toList_inj.1 ?_), fun h => by rw [h]⟩
  have htext := congrArg (fun key : MetricKey => key.text.toList) h
  simp only [child, String.toList_append, List.append_assoc] at htext
  exact List.append_cancel_right htext

/-- The keys of a call as they are built without a memo. -/
def CallKeys.of (component : ComponentKey) (userPrefix : String) (user : UserId) (type : CallType)
    (operation : OperationName) : CallKeys :=
  let key := operationKey component type operation
  ⟨key, userKey userPrefix user key, key.child Reserved.errors, key.child Reserved.overhead⟩

/-- The events by which a dispatcher reports what it replaced when it looked for keys. -/
def LogEvent.OfKeys (e : LogEvent) : Prop :=
  e.event = "identity.lookup_failed" ∨ e.event = "dispatcher.key_invalid"

/-- What finding keys leaves as it is, and what it may log. -/
structure World.Aside (w w' : World σ) : Prop where
  stage : w'.toStage = w.toStage
  registries : w'.registries = w.registries
  timers : w'.timers = w.timers
  users : w'.users = w.users
  calls : w'.calls = w.calls
  component : w'.dispatch.component = w.dispatch.component
  inFlight : ∀ type, w'.dispatch.inFlight type = w.dispatch.inFlight type
  known : ∀ type, (w.dispatch.site? type).isSome → (w'.dispatch.site? type).isSome
  log : LogGrows LogEvent.OfKeys w.log w'.log

namespace World

theorem Aside.refl (w : World σ) : w.Aside w :=
  ⟨rfl, rfl, rfl, rfl, rfl, rfl, fun _ => rfl, fun _ h => h, .refl _ _⟩

theorem Aside.trans {a b c : World σ} (h : a.Aside b) (h' : b.Aside c) : a.Aside c :=
  ⟨h'.stage.trans h.stage, h'.registries.trans h.registries, h'.timers.trans h.timers,
    h'.users.trans h.users, h'.calls.trans h.calls, h'.component.trans h.component,
    fun type => (h'.inFlight type).trans (h.inFlight type),
    fun type hs => h'.known type (h.known type hs), h.log.trans h'.log⟩

theorem aside_logged (w : World σ) (l : Logger) {e : LogEvent} (he : e.OfKeys) :
    w.Aside (w.logged l e) :=
  ⟨logged_toStage w l e, logged_registries w l e, logged_timers w l e, logged_users w l e,
    logged_calls w l e, by rw [logged_dispatch], fun type => by rw [logged_dispatch],
    fun type hs => by rwa [logged_dispatch], .logged w l he⟩

end World

namespace Dispatcher
variable (d : Dispatcher σ) (p : Place) (w : World σ)

theorem aside_join (left right : String) : w.Aside (join left right w).2 :=
  ⟨rfl, rfl, rfl, rfl, rfl, rfl, fun _ => rfl, fun _ h => h, .refl _ _⟩

theorem join_site? (left right : String) (type : CallType) :
    (join left right w).2.dispatch.site? type = w.dispatch.site? type := rfl

theorem joinKey_snd (left right : String) (fallback : MetricKey) :
    (joinKey left right fallback w).2 = (join left right w).2 := by
  unfold joinKey
  split
  split <;> simp_all

/-- Nothing stands in for a joined text with a slash in it. -/
theorem joinKey_fst {left right : String} (fallback : MetricKey)
    (h : '/' ∈ (left ++ right).toList) : (joinKey left right fallback w).1 = ⟨left ++ right⟩ := by
  have hjoin : (join left right w).1 = left ++ right := join_fst left right w
  unfold joinKey
  simp only [hjoin, MetricKey.ofJoined_of_slash h]

theorem aside_joinKey (left right : String) (fallback : MetricKey) :
    w.Aside (joinKey left right fallback w).2 := by
  rw [joinKey_snd]
  exact aside_join w left right

/-- The user of the call of a number: the one whom the identity answers, the anonymous one if it fails. -/
def userOf (users : ThreadUsers) (turn : Nat) : UserId :=
  match d.identity.answer ⟨p.user, users.get? p.thread, turn⟩ with
  | .ok user => user
  | .error _ => d.anonymousUser

def caller : UserId := d.userOf p w.users w.calls

theorem currentUser_fst : (d.currentUser p w).1 = d.caller p w := by
  unfold currentUser lookupUser caller userOf
  cases d.identity.answer ⟨p.user, w.users.get? p.thread, w.calls⟩ <;> rfl

theorem aside_currentUser : w.Aside (d.currentUser p w).2 := by
  unfold currentUser
  cases d.lookupUser p w with
  | ok user => exact .refl w
  | error e => exact World.aside_logged w d.logger (.inl rfl)

section CallKeys
variable (operation : OperationName)

theorem aside_callKeys (keyPrefix : String) :
    w.Aside (d.callKeys p keyPrefix operation w).2 := by
  have huser := aside_currentUser d p w
  simp only [callKeys]
  refine .trans ?_ (aside_joinKey _ _ _ _)
  refine .trans ?_ (aside_joinKey _ _ _ _)
  refine .trans ?_ (aside_joinKey _ _ _ _)
  refine .trans ?_ (aside_join _ _ _)
  refine .trans ?_ (aside_join _ _ _)
  exact huser.trans (aside_joinKey _ _ _ _)

theorem slash_mem_operationKey (component : ComponentKey) (type : CallType) :
    '/' ∈ (sitePrefix component type ++ operation.text).toList := by simp [sitePrefix]

theorem slash_mem_childKey (key : MetricKey) (name : String) :
    '/' ∈ (key.text ++ ("/" ++ name)).toList := by simp

theorem slash_mem_userKey (userPrefix : String) (user : UserId) (key : MetricKey) :
    '/' ∈ (userPrefix ++ user.text ++ "/" ++ key.text).toList := by simp

theorem callKeys_fst (type : CallType) :
    (d.callKeys p (sitePrefix w.dispatch.component type) operation w).1 =
      .of w.dispatch.component d.userPrefix (d.caller p w) type operation := by
  have hop (fallback : MetricKey) (w' : World σ) :
      (joinKey (sitePrefix w.dispatch.component type) operation.text fallback w').1 =
      operationKey w.dispatch.component type operation :=
    joinKey_fst w' fallback (slash_mem_operationKey operation _ type)
  have hchild (key : MetricKey) (name : String) (fallback : MetricKey) (w' : World σ) :
      (joinKey key.text ("/" ++ name) fallback w').1 = key.child name := by
    rw [joinKey_fst w' fallback (slash_mem_childKey key name), MetricKey.child, String.append_assoc]
  have huser (user : UserId) (key fallback : MetricKey) (w' : World σ) :
      (joinKey (d.userPrefix ++ user.text ++ "/") key.text fallback w').1 =
      userKey d.userPrefix user key := joinKey_fst w' fallback (slash_mem_userKey _ user key)
  simp only [callKeys, CallKeys.of, currentUser_fst, hop, join_fst, hchild, huser]

end CallKeys

section Site
variable (type : CallType)

theorem site_keyPrefix : (site type w).1.keyPrefix = sitePrefix w.dispatch.component type := by
  unfold site
  split
  · rename_i found h
    exact w.dispatch.named type found h
  · simp only [openSite]
    rw [joinPrefix_fst, joinPrefix_component]

theorem site_inFlight : (site type w).1.inFlight = w.dispatch.inFlight type := by
  unfold site DispatchState.inFlight
  split
  · rename_i found h
    rw [h]
    rfl
  · rename_i h
    rw [h]
    rfl

theorem site_known : ((site type w).2.dispatch.site? type).isSome := by
  unfold site
  split
  · rename_i found h
    exact Option.isSome_of_eq_some h
  · simp [openSite]

theorem aside_joinPrefix : w.Aside (joinPrefix type w).2 := by
  unfold joinPrefix
  exact (aside_join w _ _).trans (aside_join _ _ _)

theorem joinPrefix_site? : (joinPrefix type w).2.dispatch.site? type = w.dispatch.site? type := by
  unfold joinPrefix
  exact (join_site? _ _ _ type).trans (join_site? _ _ _ type)

/-- A site that is made has no call running, as a type without a site. -/
theorem aside_openSite {keyPrefix : String}
    (h : keyPrefix = sitePrefix w.dispatch.component type) (hnone : w.dispatch.site? type = none) :
    w.Aside (openSite type keyPrefix w h).2 := by
  refine ⟨rfl, rfl, rfl, rfl, rfl, rfl, fun t => ?_, fun t ht => ?_, .refl _ _⟩
  · simp only [openSite, DispatchState.inFlight, DispatchState.site?_withSite]
    by_cases htype : t = type
    · rw [if_pos htype, htype, hnone]
      rfl
    · rw [if_neg htype]
  · simp only [openSite, DispatchState.site?_withSite]
    by_cases htype : t = type
    · rw [if_pos htype]
      rfl
    · rw [if_neg htype]
      exact ht

theorem aside_site : w.Aside (site type w).2 := by
  unfold site
  split
  · exact .refl w
  · rename_i h
    exact (aside_joinPrefix w type).trans
      (aside_openSite _ type _ ((joinPrefix_site? w type).trans h))

end Site

theorem aside_reportRequest (method path : String) (e : KeyError) :
    w.Aside (d.reportRequest method path e w) := World.aside_logged w d.logger (.inr rfl)

def requestType (method : String) : CallType :=
  match CallType.ofMethod method with
  | .ok type => type
  | .error _ => .get

def requestOperation (path : String) : OperationName :=
  match OperationName.read path with
  | .ok operation => operation
  | .error _ => .unresolved

theorem requestKeys_fst (method path : String) :
    (d.requestKeys method path w).1 = (requestType method, requestOperation path) := by
  unfold requestKeys requestType requestOperation
  cases CallType.ofMethod method <;> cases OperationName.read path <;> rfl

theorem aside_requestKeys (method path : String) : w.Aside (d.requestKeys method path w).2 := by
  unfold requestKeys
  cases CallType.ofMethod method with
  | ok type =>
    cases OperationName.read path with
    | ok operation => exact .refl w
    | error e => exact aside_reportRequest d w method path e
  | error e =>
    have hm := aside_reportRequest d w method path e
    cases OperationName.read path with
    | ok operation => exact hm
    | error e' => exact hm.trans (aside_reportRequest d _ method path e')

end Dispatcher
end CallMetrics
