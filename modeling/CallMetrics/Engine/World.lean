import CallMetrics.Config.Valid
import CallMetrics.Dict
import CallMetrics.History
import CallMetrics.Identity
import CallMetrics.InFlight
import CallMetrics.JoinCache
import CallMetrics.Key.Metric
import CallMetrics.Log.Logger
import CallMetrics.Metric.Registry
import CallMetrics.Sink.Basic

/-! All that an instrumented program changes: the clocks and the state of its sinks, what has been
logged, the registries of its clients, the open sections, the state of its dispatcher, its history,
and the users bound to threads. -/

namespace CallMetrics

/-- The calls of one type: the beginning of their keys, and how many of them run. -/
structure Site where
  keyPrefix : String
  inFlight : InFlight

/-- What a dispatcher keeps between its calls. A site's keys begin with the component and the type
that it belongs to. -/
structure DispatchState where
  component : ComponentKey
  cache : JoinCache
  sites : Dict Site
  named : ∀ (type : CallType) (site : Site), sites.get? type.text = some site →
    site.keyPrefix = sitePrefix component type

namespace DispatchState

def new (component : ComponentKey) (cap : Nat) : DispatchState :=
  ⟨component, .new cap, ∅, fun _ _ h => by simp at h⟩

def site? (s : DispatchState) (type : CallType) : Option Site := s.sites.get? type.text

def inFlight (s : DispatchState) (type : CallType) : InFlight :=
  ((s.site? type).map (·.inFlight)).getD .none

def withSite (s : DispatchState) (type : CallType) (site : Site)
    (h : site.keyPrefix = sitePrefix s.component type) : DispatchState where
  component := s.component
  cache := s.cache
  sites := s.sites.insert type.text site
  named other found hf := by
    rw [Dict.get?_insert] at hf
    split at hf
    · rename_i ht
      rw [← Option.some.inj hf, h, sitePrefix, sitePrefix, ht]
    · exact s.named other found hf

def setInFlight (s : DispatchState) (type : CallType) (count : InFlight) : DispatchState :=
  match h : s.site? type with
  | some site => s.withSite type { site with inFlight := count } (s.named type site h)
  | none => s

@[simp] theorem site?_withSite (s : DispatchState) (type type' : CallType) (site : Site)
    (h : site.keyPrefix = sitePrefix s.component type) :
    (s.withSite type site h).site? type' = if type' = type then some site else s.site? type' := by
  unfold withSite site?
  rw [Dict.get?_insert]
  by_cases ht : type' = type
  · rw [if_pos ht, if_pos (congrArg CallType.text ht)]
  · rw [if_neg ht, if_neg fun hx => ht (CallType.eq_of_text hx)]

@[simp] theorem component_setInFlight (s : DispatchState) (type : CallType) (count : InFlight) :
    (s.setInFlight type count).component = s.component := by
  unfold setInFlight
  split <;> rfl

theorem site?_setInFlight (s : DispatchState) (type type' : CallType) (count : InFlight) :
    (s.setInFlight type count).site? type' =
      if type' = type then (s.site? type).map fun site => { site with inFlight := count }
      else s.site? type' := by
  unfold setInFlight
  split
  · rename_i site h
    rw [site?_withSite, h]
    rfl
  · rename_i h
    by_cases ht : type' = type
    · rw [if_pos ht, ht, h]
      rfl
    · rw [if_neg ht]

/-- Where a type has a site, setting its count sets what is read. -/
theorem inFlight_setInFlight (s : DispatchState) {type : CallType} (h : (s.site? type).isSome)
    (type' : CallType) (count : InFlight) :
    (s.setInFlight type count).inFlight type' = if type' = type then count else s.inFlight type' := by
  obtain ⟨site, hsite⟩ := Option.isSome_iff_exists.1 h
  unfold inFlight
  rw [site?_setInFlight, hsite]
  by_cases ht : type' = type
  · rw [if_pos ht, if_pos ht]
    rfl
  · rw [if_neg ht, if_neg ht]

@[simp] theorem isSome_site?_setInFlight (s : DispatchState) (type type' : CallType)
    (count : InFlight) : ((s.setInFlight type count).site? type').isSome = (s.site? type').isSome := by
  rw [site?_setInFlight]
  by_cases ht : type' = type
  · rw [if_pos ht, Option.isSome_map, ht]
  · rw [if_neg ht]

end DispatchState

structure World (σ : Type) extends Stage σ where
  log : Array LogRecord
  registries : Dict Registry
  timers : TimerStacks
  dispatch : DispatchState
  history : History MetricReading
  users : ThreadUsers
  calls : Nat
  threads : Nat
  scopes : Nat

namespace World
variable {σ : Type}

def started (config : ValidConfig) (stage : Stage σ) : World σ :=
  { stage with
    log := #[]
    registries := ∅
    timers := .empty
    dispatch := .new config.component config.config.concatCap.toNat
    history := .new config.config.historyKey config.config.historySize.toNat
    users := .empty
    calls := 0
    threads := 1
    scopes := 0 }

/-- Logs an event through a logger, if its backend takes it. -/
def logged (w : World σ) (logger : Logger) (e : LogEvent) : World σ :=
  match logger.record w.clock.stamp e with
  | some r => { w with log := w.log.push r }
  | none => w

def onTimers (w : World σ) {α : Type} (f : TimerStacks → α × TimerStacks) : α × World σ :=
  let (a, timers) := f w.timers
  (a, { w with timers })

def onClock (w : World σ) (f : Clock → Clock) : World σ := { w with clock := f w.clock }

def enterScope (p : Place) (w : World σ) : Place × World σ :=
  ({ p with scope := some w.scopes }, { w with scopes := w.scopes + 1 })

/-- Forgets the open sections of a context that has ended. -/
def leaveContext (p : Place) (w : World σ) : World σ :=
  { w with timers := w.timers.leave p.context }

def inScope {α : Type} (p : Place) (body : Place → World σ → α × World σ) (w : World σ) :
    α × World σ :=
  let (inner, w) := enterScope p w
  let (a, w) := body inner w
  (a, leaveContext inner w)

def enterThread (w : World σ) : Place × World σ :=
  ({ thread := w.threads }, { w with threads := w.threads + 1 })

/-- Forgets all that belongs to a thread that has ended. -/
def leaveThread (p : Place) (w : World σ) : World σ :=
  let w := leaveContext p w
  { w with users := w.users.set p.thread none }

def onThread {α : Type} (body : Place → World σ → α × World σ) (w : World σ) : α × World σ :=
  let (p, w) := enterThread w
  let (a, w) := body p w
  (a, leaveThread p w)

def withUser {α : Type} (p : Place) (user : UserId) (body : World σ → α × World σ) (w : World σ) :
    α × World σ :=
  let (guard, users) := w.users.enter p.thread user
  let (a, w) := body { w with users }
  (a, { w with users := w.users.drop p.thread guard })

end World
end CallMetrics
