import CallMetrics.Engine.Timer

/-! Timers called from many places. Threads and nested scopes call any timers in any order. Every
context and timer answer like a stack by itself that is given only the calls made there
(`TimerRun.Apart`), and only stacks with open sections are stored. -/

namespace CallMetrics
variable {σ : Type}

inductive TimerOp
  | start (name : String)
  | finish (name : String)
  | cancel
  | depth

inductive TimerAnswer
  | done
  | finished (result : Except TimerMismatch TimerReading)
  | cancelled (found : Bool)
  | depth (n : Nat)

/-- What a stack of sections by itself answers to a call, and what it is then. -/
def stackStep (now : Clock) : TimerOp → List Frame → TimerAnswer × List Frame
  | .start name, frames => (.done, ⟨name, now.wall, now.cpu⟩ :: frames)
  | .finish name, [] => (.finished (.error (.noFrame name)), [])
  | .finish name, f :: rest =>
    if f.name = name then (.finished (.ok ⟨f.startWall, now.wall, f.startCpu, now.cpu⟩), rest)
    else (.finished (.error (.otherFrame name f.name)), rest)
  | .cancel, [] => (.cancelled false, [])
  | .cancel, _ :: rest => (.cancelled true, rest)
  | .depth, frames => (.depth frames.length, frames)

def stackRun : List Frame → List (Clock × TimerOp) → List TimerAnswer × List Frame
  | frames, [] => ([], frames)
  | frames, (now, op) :: rest =>
    let (answer, frames) := stackStep now op frames
    let (answers, frames) := stackRun frames rest
    (answer :: answers, frames)

theorem stackRun_concat (frames : List Frame) (ops : List (Clock × TimerOp)) (now : Clock)
    (op : TimerOp) : stackRun frames (ops ++ [(now, op)]) =
      ((stackRun frames ops).1 ++ [(stackStep now op (stackRun frames ops).2).1],
        (stackStep now op (stackRun frames ops).2).2) := by
  induction ops generalizing frames with
  | nil => rfl
  | cons a rest ih => simp only [List.cons_append, stackRun, ih]

namespace TimerStacks

theorem stack_leave (s : TimerStacks) (c c' : Context) (t : TimerId) :
    (s.leave c).stack c' t = if c' = c then [] else s.stack c' t := by
  unfold stack leave
  induction s.entries with
  | nil => simp
  | cons e rest ih =>
    by_cases he : e.1.1 = c
    · rw [List.filter_cons_of_neg (by simp [he]), ih, List.lookup_cons]
      by_cases hc : c' = c
      · rw [if_pos hc, if_pos hc]
      · have hne : ((c', t) == e.1) = false :=
          beq_eq_false_iff_ne.2 fun h => hc ((congrArg Prod.fst h).trans he)
        rw [if_neg hc, if_neg hc, hne]
    · rw [List.filter_cons_of_pos (by simpa using he), List.lookup_cons, List.lookup_cons]
      split
      · rename_i h
        rw [if_neg fun hc => he ((congrArg Prod.fst (beq_iff_eq.1 h)).symm.trans hc)]
      · exact ih

theorem lookup_eq_some_iff_mem {entries : List ((Context × TimerId) × List Frame)}
    (hnodup : (entries.map (·.1)).Nodup) {key : Context × TimerId} {frames : List Frame} :
    entries.lookup key = some frames ↔ (key, frames) ∈ entries := by
  induction entries with
  | nil => simp
  | cons e rest ih =>
    obtain ⟨key', stored⟩ := e
    obtain ⟨hnew, hrest⟩ := List.nodup_cons.1 hnodup
    rw [List.lookup_cons, List.mem_cons, Prod.mk.injEq]
    by_cases hkey : key = key'
    · subst hkey
      have hnot : (key, frames) ∉ rest := fun h => hnew (List.mem_map.2 ⟨_, h, rfl⟩)
      simp [hnot, eq_comm]
    · rw [beq_eq_false_iff_ne.2 hkey, ih hrest, or_iff_right fun h => hkey h.1]

/-- Each context and timer have at most one stored stack, and none without sections. -/
structure Compact (s : TimerStacks) : Prop where
  nodup : (s.entries.map (·.1)).Nodup
  nonempty : ∀ e ∈ s.entries, e.2 ≠ []

namespace Compact
variable {s : TimerStacks}

theorem set (h : s.Compact) (c : Context) (t : TimerId) (frames : List Frame) :
    (s.set c t frames).Compact := by
  have hfilter : (s.entries.filter (·.1 != (c, t))).map (·.1) |>.Nodup :=
    (List.filter_sublist.map _).nodup h.nodup
  have hmem : ∀ e ∈ s.entries.filter (·.1 != (c, t)), e.2 ≠ [] := fun e he =>
    h.nonempty e (List.mem_filter.1 he).1
  unfold TimerStacks.set
  cases frames with
  | nil => exact ⟨hfilter, hmem⟩
  | cons f rest =>
    refine ⟨List.nodup_cons.2 ⟨?_, hfilter⟩, fun e he => ?_⟩
    · simp
    · rcases List.mem_cons.1 he with rfl | he
      · simp
      · exact hmem e he

theorem leave (h : s.Compact) (c : Context) : (s.leave c).Compact :=
  ⟨(List.filter_sublist.map _).nodup h.nodup, fun e he => h.nonempty e (List.mem_filter.1 he).1⟩

theorem mem_entries (h : s.Compact) (c : Context) (t : TimerId) (frames : List Frame) :
    ((c, t), frames) ∈ s.entries ↔ frames ≠ [] ∧ s.stack c t = frames := by
  have hmem (found : List Frame) :
      s.entries.lookup (c, t) = some found ↔ ((c, t), found) ∈ s.entries :=
    lookup_eq_some_iff_mem h.nodup
  unfold stack
  cases hlookup : s.entries.lookup (c, t) with
  | none =>
    rw [← hmem, hlookup]
    constructor
    · intro h
      cases h
    · rintro ⟨hne, rfl⟩
      exact absurd rfl hne
  | some found =>
    rw [← hmem, hlookup, Option.some.injEq]
    constructor
    · rintro rfl
      exact ⟨h.nonempty _ ((hmem found).1 hlookup), rfl⟩
    · exact fun h => h.2

end Compact
end TimerStacks

/-- A call of a timer, with the context and the time of it. -/
structure TimerCall where
  context : Context
  timer : TimerId
  now : Clock
  op : TimerOp
  answer : TimerAnswer

def Timer.call (t : Timer) (p : Place) (op : TimerOp) (w : World σ) : TimerAnswer × World σ :=
  match op with
  | .start name => (.done, t.start p name w)
  | .finish name =>
    let (result, w) := t.finish p name w
    (.finished result, w)
  | .cancel =>
    let (found, w) := t.cancel p w
    (.cancelled found, w)
  | .depth => (.depth (t.depth p w), w)

/-- A call uses one stack as its own and leaves the others alone. -/
structure Timer.Called (t : Timer) (p : Place) (op : TimerOp) (w : World σ)
    (r : TimerAnswer × World σ) : Prop where
  own : (r.1, r.2.timers.stack p.context t.id) =
    stackStep w.clock op (w.timers.stack p.context t.id)
  others : ∀ c t', (c, t') ≠ (p.context, t.id) → r.2.timers.stack c t' = w.timers.stack c t'
  scopes : r.2.scopes = w.scopes
  compact : w.timers.Compact → r.2.timers.Compact

theorem Timer.called (t : Timer) (p : Place) (op : TimerOp) (w : World σ) :
    t.Called p op w (t.call p op w) := by
  cases op with
  | start name =>
    refine ⟨?_, fun c t' h => TimerStacks.stack_set_of_ne _ h _, rfl, fun h => h.set _ _ _⟩
    exact congrArg _ (TimerStacks.stack_set_self _ _ _ _)
  | finish name =>
    refine ⟨?_, fun c t' h => TimerStacks.stack_finish_of_ne _ h _ _, rfl, fun h => h.set _ _ _⟩
    refine (congrArg _ (TimerStacks.stack_finish _ _ _ _ _)).trans ?_
    change (TimerAnswer.finished (endFrame name w.clock (w.timers.stack p.context t.id)).1, _) = _
    cases w.timers.stack p.context t.id with
    | nil => rfl
    | cons f rest =>
      rw [stackStep, endFrame]
      split <;> rfl
  | cancel =>
    refine ⟨?_, fun c t' h => TimerStacks.stack_cancel_of_ne _ h, rfl, fun h => ?_⟩
    · refine (congrArg _ (TimerStacks.stack_cancel _ _ _)).trans ?_
      change (TimerAnswer.cancelled (w.timers.cancel p.context t.id).1, _) = _
      unfold TimerStacks.cancel
      cases w.timers.stack p.context t.id <;> rfl
    · change (w.timers.cancel p.context t.id).2.Compact
      unfold TimerStacks.cancel
      split
      · exact h
      · exact h.set _ _ _
  | depth => exact ⟨rfl, fun _ _ _ => rfl, rfl, fun h => h⟩

/-- One call of a timer, the opening of a scope at a place, or the end of the place's own scope. -/
inductive TimerStep
  | call (timer : Timer) (op : TimerOp)
  | enter
  | leave

structure TimerEvent where
  place : Place
  now : Clock
  step : TimerStep

/-- The scopes that are open, each with the context that it was entered from, and the calls so far.
-/
structure TimerRun (σ : Type) where
  world : World σ
  scopes : List (Nat × Context)
  calls : List TimerCall

namespace TimerRun

def started (config : ValidConfig) (stage : Stage σ) : TimerRun σ :=
  ⟨.started config stage, [], []⟩

/-- Threads are there all the time, scopes from their beginning to their end. -/
def IsOpen (s : TimerRun σ) : Context → Prop
  | .thread _ => True
  | .scope n => n ∈ s.scopes.map (·.1)

instance (s : TimerRun σ) (c : Context) : Decidable (s.IsOpen c) :=
  match c with
  | .thread _ => inferInstanceAs (Decidable True)
  | .scope _ => inferInstanceAs (Decidable (_ ∈ _))

def call (s : TimerRun σ) (p : Place) (now : Clock) (timer : Timer) (op : TimerOp) : TimerRun σ :=
  let (answer, w) := timer.call p op (s.world.onClock fun _ => now)
  { s with world := w, calls := s.calls ++ [⟨p.context, timer.id, now, op, answer⟩] }

def enter (s : TimerRun σ) (p : Place) (now : Clock) : TimerRun σ :=
  { s with
    world := (World.enterScope p (s.world.onClock fun _ => now)).2
    scopes := (s.world.scopes, p.context) :: s.scopes }

def leave (s : TimerRun σ) (p : Place) (now : Clock) : TimerRun σ :=
  { s with
    world := World.leaveContext p (s.world.onClock fun _ => now)
    scopes := s.scopes.filter fun e => .scope e.1 ≠ p.context }

/-- Nothing runs at a place that is not open, and a scope does not end before the scopes in it. -/
def step (s : TimerRun σ) (e : TimerEvent) : TimerRun σ :=
  if s.IsOpen e.place.context then
    match e.step with
    | .call timer op => s.call e.place e.now timer op
    | .enter => s.enter e.place e.now
    | .leave =>
      if e.place.scope = none ∨ e.place.context ∈ s.scopes.map (·.2) then s
      else s.leave e.place e.now
  else s

def run (s : TimerRun σ) (events : List TimerEvent) : TimerRun σ := events.foldl step s

def callsOf (s : TimerRun σ) (c : Context) (t : TimerId) : List TimerCall :=
  s.calls.filter fun call => call.context = c ∧ call.timer = t

/-- What the calls of a timer in a context make of a stack by itself. -/
def alone (s : TimerRun σ) (c : Context) (t : TimerId) : List TimerAnswer × List Frame :=
  stackRun [] ((s.callsOf c t).map fun call => (call.now, call.op))

/-- Each timer answers in each context as a stack by itself does, and has that stack while the
context is open. -/
structure Apart (s : TimerRun σ) : Prop where
  answers : ∀ c t, (s.callsOf c t).map (·.answer) = (s.alone c t).1
  stack : ∀ c, s.IsOpen c → ∀ t, s.world.timers.stack c t = (s.alone c t).2
  closed : ∀ c, ¬s.IsOpen c → ∀ t, s.world.timers.stack c t = []
  compact : s.world.timers.Compact
  nested : ∀ e ∈ s.scopes, s.IsOpen e.2 ∧ e.2 ≠ .scope e.1
  opened : ∀ n, s.IsOpen (.scope n) → n < s.world.scopes
  called : ∀ made ∈ s.calls, ∀ n, made.context = .scope n → n < s.world.scopes

theorem apart_started (config : ValidConfig) (stage : Stage σ) : (started config stage).Apart where
  answers _ _ := rfl
  stack _ _ _ := rfl
  closed _ _ _ := rfl
  compact := ⟨List.nodup_nil, by simp [started, World.started, TimerStacks.empty]⟩
  nested := by simp [started]
  opened := by simp [started, IsOpen]
  called := by simp [started]

variable {s : TimerRun σ}

theorem callsOf_call (s : TimerRun σ) (p : Place) (now : Clock) (timer : Timer) (op : TimerOp)
    (c : Context) (t : TimerId) : (s.call p now timer op).callsOf c t =
      if (c, t) = (p.context, timer.id) then s.callsOf c t ++ [⟨p.context, timer.id, now, op,
        (timer.call p op (s.world.onClock fun _ => now)).1⟩] else s.callsOf c t := by
  unfold callsOf
  rw [call, List.filter_append]
  by_cases h : p.context = c ∧ timer.id = t
  · rw [if_pos (Prod.ext h.1.symm h.2.symm), List.filter_cons_of_pos (by simpa using h)]
    rfl
  · rw [if_neg fun hx => h ⟨(congrArg Prod.fst hx).symm, (congrArg Prod.snd hx).symm⟩,
      List.filter_cons_of_neg (by simpa using h), List.filter_nil, List.append_nil]

/-- A call made where the stack is one by itself gets its answer and leaves its stack. -/
theorem alone_call (p : Place) (now : Clock) (timer : Timer) (op : TimerOp)
    (hstack : s.world.timers.stack p.context timer.id = (s.alone p.context timer.id).2)
    (c : Context) (t : TimerId) : (s.call p now timer op).alone c t =
      if (c, t) = (p.context, timer.id) then
        ((s.alone c t).1 ++ [(timer.call p op (s.world.onClock fun _ => now)).1],
          (s.call p now timer op).world.timers.stack c t)
      else s.alone c t := by
  have hown := (timer.called p op (s.world.onClock fun _ => now)).own
  rw [World.onClock, hstack] at hown
  unfold alone at hown ⊢
  rw [callsOf_call]
  by_cases hk : (c, t) = (p.context, timer.id)
  · obtain ⟨rfl, rfl⟩ := Prod.mk.inj hk
    rw [if_pos rfl, if_pos rfl, List.map_append, List.map_singleton, stackRun_concat, ← hown]
    rfl
  · rw [if_neg hk, if_neg hk]

theorem Apart.call (h : s.Apart) (p : Place) (now : Clock) (timer : Timer) (op : TimerOp)
    (hopen : s.IsOpen p.context) : (s.call p now timer op).Apart := by
  have hcalled := timer.called p op (s.world.onClock fun _ => now)
  have halone := alone_call p now timer op (h.stack _ hopen _)
  refine ⟨fun c t => ?_, fun c hc t => ?_, fun c hc t => ?_, hcalled.compact h.compact, h.nested,
    fun n hn => Nat.lt_of_lt_of_eq (h.opened n hn) hcalled.scopes.symm, fun made hmade n hn => ?_⟩
  · rw [callsOf_call, halone]
    split
    · rw [List.map_append, h.answers]
      rfl
    · exact h.answers c t
  · rw [halone]
    split
    · rfl
    · rename_i hk
      exact (hcalled.others c t hk).trans (h.stack c hc t)
  · have hk : (c, t) ≠ (p.context, timer.id) := by
      rintro ⟨rfl, rfl⟩
      exact hc hopen
    exact (hcalled.others c t hk).trans (h.closed c hc t)
  · refine Nat.lt_of_lt_of_eq ?_ hcalled.scopes.symm
    rcases List.mem_append.1 hmade with hmade | hmade
    · exact h.called made hmade n hn
    · obtain rfl := List.mem_singleton.1 hmade
      exact h.opened n (hn ▸ hopen)

theorem isOpen_enter (s : TimerRun σ) (p : Place) (now : Clock) (c : Context) :
    (s.enter p now).IsOpen c ↔ c = .scope s.world.scopes ∨ s.IsOpen c := by
  cases c with
  | thread n => simp [IsOpen]
  | scope n =>
    rw [Context.scope.injEq]
    exact List.mem_cons

theorem Apart.enter (h : s.Apart) (p : Place) (now : Clock) (hopen : s.IsOpen p.context) :
    (s.enter p now).Apart := by
  -- The number of the new scope is no other scope's, so nothing has been called there.
  have hnew : ¬s.IsOpen (.scope s.world.scopes) := fun hn => Nat.lt_irrefl _ (h.opened _ hn)
  have hnocalls (t : TimerId) : s.callsOf (.scope s.world.scopes) t = [] := by
    refine List.filter_eq_nil_iff.2 fun made hmade hn => ?_
    exact Nat.lt_irrefl _ (h.called made hmade _ (of_decide_eq_true hn).1)
  refine ⟨h.answers, fun c hc t => ?_, fun c hc t => ?_, h.compact, fun e he => ?_, fun n hn => ?_,
    fun made hmade n hn => Nat.lt_succ_of_lt (h.called made hmade n hn)⟩
  · rcases (isOpen_enter s p now c).1 hc with rfl | hc
    · have halone : (s.alone (.scope s.world.scopes) t).2 = [] := by
        rw [alone, hnocalls]
        rfl
      exact (h.closed _ hnew t).trans halone.symm
    · exact h.stack c hc t
  · exact h.closed c (fun hs => hc ((isOpen_enter s p now c).2 (.inr hs))) t
  · rw [isOpen_enter]
    rcases List.mem_cons.1 he with rfl | he
    · exact ⟨.inr hopen, fun hsame : p.context = .scope s.world.scopes => hnew (hsame ▸ hopen)⟩
    · exact ⟨.inr (h.nested e he).1, (h.nested e he).2⟩
  · rcases (isOpen_enter s p now _).1 hn with hn | hn
    · cases hn
      exact Nat.lt_succ_self _
    · exact Nat.lt_succ_of_lt (h.opened n hn)

theorem isOpen_leave (s : TimerRun σ) {p : Place} (hscope : p.scope ≠ none) (now : Clock)
    (c : Context) : (s.leave p now).IsOpen c ↔ s.IsOpen c ∧ c ≠ p.context := by
  obtain ⟨n, hn⟩ := Option.ne_none_iff_exists'.1 hscope
  have hcontext : p.context = .scope n := by rw [Place.context, hn]
  cases c with
  | thread m => simp [IsOpen, hcontext]
  | scope m => simp [IsOpen, leave, hcontext]

theorem Apart.leave (h : s.Apart) {p : Place} (hscope : p.scope ≠ none)
    (hinner : p.context ∉ s.scopes.map (·.2)) (now : Clock) : (s.leave p now).Apart := by
  have hstack (c : Context) (t : TimerId) : (s.leave p now).world.timers.stack c t =
      if c = p.context then [] else s.world.timers.stack c t := TimerStacks.stack_leave _ _ _ _
  refine ⟨h.answers, fun c hc t => ?_, fun c hc t => ?_, h.compact.leave _, fun e he => ?_,
    fun n hn => h.opened n ((isOpen_leave s hscope now _).1 hn).1, h.called⟩
  · obtain ⟨hopen, hne⟩ := (isOpen_leave s hscope now c).1 hc
    rw [hstack, if_neg hne]
    exact h.stack c hopen t
  · rw [hstack]
    split
    · rfl
    · rename_i hne
      exact h.closed c (fun hs => hc ((isOpen_leave s hscope now c).2 ⟨hs, hne⟩)) t
  · have hmem := (List.mem_filter.1 he).1
    rw [isOpen_leave s hscope]
    exact ⟨⟨(h.nested e hmem).1, fun hc => hinner (List.mem_map.2 ⟨e, hmem, hc⟩)⟩,
      (h.nested e hmem).2⟩

theorem Apart.step (h : s.Apart) (e : TimerEvent) : (s.step e).Apart := by
  unfold TimerRun.step
  split
  · rename_i hopen
    cases e.step with
    | call timer op => exact h.call e.place e.now timer op hopen
    | enter => exact h.enter e.place e.now hopen
    | leave =>
      dsimp only
      split
      · exact h
      · rename_i hleave
        exact h.leave (fun hn => hleave (.inl hn)) (fun hi => hleave (.inr hi)) e.now
  · exact h

theorem Apart.run (h : s.Apart) (events : List TimerEvent) : (s.run events).Apart := by
  induction events generalizing s with
  | nil => exact h
  | cons e rest ih => exact ih (h.step e)

end TimerRun

/-- Whatever threads and scopes call which timers in what order, each timer answers in each context
as a stack by itself that only the calls there are given to. The stacks stored after them are the
nonempty ones of these stacks in the contexts that are open, once each. A scope that ends leaves
open the context that it was entered from, with all its stacks. -/
theorem timer_stacks_independent (config : ValidConfig) (stage : Stage σ)
    (events : List TimerEvent) :
    let s := (TimerRun.started config stage).run events
    let timers := s.world.timers
    (∀ c t, (s.callsOf c t).map (·.answer) = (s.alone c t).1) ∧
      (∀ c t, s.IsOpen c → timers.stack c t = (s.alone c t).2) ∧
      (∀ c t frames, ((c, t), frames) ∈ timers.entries ↔
        s.IsOpen c ∧ frames ≠ [] ∧ (s.alone c t).2 = frames) ∧
      (timers.entries.map (·.1)).Nodup ∧
      ∀ e ∈ s.scopes, s.IsOpen e.2 ∧
        ∀ t, (timers.leave (.scope e.1)).stack e.2 t = timers.stack e.2 t := by
  intro s timers
  have h : s.Apart := (TimerRun.apart_started config stage).run events
  refine ⟨h.answers, fun c t hc => h.stack c hc t, fun c t frames => ?_, h.compact.nodup,
    fun e he => ⟨(h.nested e he).1, fun t => ?_⟩⟩
  · rw [h.compact.mem_entries]
    by_cases hc : s.IsOpen c
    · rw [h.stack c hc t, and_iff_right hc]
    · rw [h.closed c hc t]
      exact ⟨fun hf => absurd hf.2.symm hf.1, fun hf => absurd hf.1 hc⟩
  · rw [TimerStacks.stack_leave, if_neg (h.nested e he).2]

end CallMetrics
