import CallMetrics.Proofs.Engine.Observed

/-! Calls whose bodies open and end sections of their own on the timer of the call. What a body does
comes down to how many frames it takes from the stack and what it leaves there (`Balance`). The end
of the call takes one frame more, whichever is innermost (`stack_runActs`). -/

namespace CallMetrics
variable {σ : Type}

inductive TimerAct
  | start (key : MetricKey)
  | finish (key : MetricKey)
  | finishAs (key target : MetricKey)
  | cancel

/-- How many frames are taken from a stack, and the names of those that are then put on it, the
innermost first. -/
structure Balance where
  taken : Nat
  left : List String
  deriving DecidableEq

namespace Balance

def take (b : Balance) : Balance :=
  match b.left with
  | [] => ⟨b.taken + 1, []⟩
  | _ :: rest => ⟨b.taken, rest⟩

def act (b : Balance) : TimerAct → Balance
  | .start key => ⟨b.taken, key.text :: b.left⟩
  | .finish _ => b.take
  | .finishAs _ _ => b.take
  | .cancel => b.take

def ofActs (acts : List TimerAct) : Balance := acts.foldl act ⟨0, []⟩

/-- A stack as it is after frames were taken from it and others put on it. -/
def Changed (b : Balance) (before after : List Frame) : Prop :=
  ∃ left, left.map Frame.name = b.left ∧ after = left ++ before.drop b.taken

variable {b : Balance} {before after : List Frame}

theorem Changed.push (h : b.Changed before after) (f : Frame) :
    Changed ⟨b.taken, f.name :: b.left⟩ before (f :: after) := by
  obtain ⟨left, hleft, rfl⟩ := h
  exact ⟨f :: left, by rw [List.map_cons, hleft], rfl⟩

theorem Changed.tail (h : b.Changed before after) : b.take.Changed before after.tail := by
  obtain ⟨left, hleft, rfl⟩ := h
  unfold take
  rw [← hleft]
  cases left with
  | nil => exact ⟨[], rfl, by simp⟩
  | cons f rest => exact ⟨rest, rfl, rfl⟩

end Balance

namespace Dispatcher
variable (d : Dispatcher σ) (p : Place)

def act (w : World σ) : TimerAct → World σ
  | .start key => d.client.start p key w
  | .finish key => (d.client.finish p key w).2
  | .finishAs key target => (d.client.finishAs p key target w).2
  | .cancel => (d.client.cancel p w).2

def runActs (type : CallType) (operation : OperationName) (acts : List TimerAct) (ending : Ending)
    (w : World σ) : World σ :=
  (d.instrument p type operation id (fun w => (ending, acts.foldl (d.act p) w)) w).2

theorem stack_finishAs (key target : MetricKey) (w : World σ) :
    d.stack p (d.client.finishAs p key target w).2 = (d.stack p w).tail := by
  have hpop := d.ended_timerFinish p (MismatchOnly True) key.text w
  unfold Client.finishAs
  split
  · rename_i r w' h
    rw [h] at hpop
    exact (hpop.reading target r).stack
  · rename_i m w' h
    rw [h] at hpop
    exact (hpop.logged _ fun _ => trivial).stack

theorem changed_act {b : Balance} {before : List Frame} {w : World σ}
    (h : b.Changed before (d.stack p w)) (a : TimerAct) :
    (b.act a).Changed before (d.stack p (d.act p w a)) := by
  cases a with
  | start key =>
    have hstart : d.stack p (d.act p w (.start key)) = .opened key.text w.clock :: d.stack p w :=
      TimerStacks.stack_set_self _ _ _ _
    rw [hstart]
    exact h.push (.opened key.text w.clock)
  | finish key =>
    rw [act, Client.finish, stack_finishAs]
    exact h.tail
  | finishAs key target =>
    rw [act, stack_finishAs]
    exact h.tail
  | cancel =>
    have hcancel : d.stack p (d.act p w .cancel) = (d.stack p w).tail :=
      TimerStacks.stack_cancel _ _ _
    rw [hcancel]
    exact h.tail

theorem changed_acts (acts : List TimerAct) {b : Balance} {before : List Frame} {w : World σ}
    (h : b.Changed before (d.stack p w)) :
    (acts.foldl Balance.act b).Changed before (d.stack p (acts.foldl (d.act p) w)) := by
  induction acts generalizing b w with
  | nil => exact h
  | cons a rest ih => exact ih (d.changed_act p h a)

/-- After a call the innermost frame is gone of those that its body left and found. -/
theorem stack_runActs (type : CallType) (operation : OperationName) (acts : List TimerAct)
    (ending : Ending) (w : World σ) : ∃ left,
      left.map Frame.name = (Balance.ofActs acts).left ∧
      d.stack p (d.runActs p type operation acts ending w) =
        (left ++ (.opened (operationKey w.dispatch.component type operation).text w.clock ::
          d.stack p w).drop (Balance.ofActs acts).taken).tail := by
  have hbegun := d.begun_begin p type operation w
  have hcall := d.begin_fst p type operation w
  simp only [runActs, instrument, hcall]
  generalize (d.begin p type operation w).2 = entered at *
  have hunchanged : Balance.Changed ⟨0, []⟩ (d.stack p entered) (d.stack p entered) :=
    ⟨[], rfl, rfl⟩
  obtain ⟨left, hleft, hstack⟩ := d.changed_acts p acts hunchanged
  refine ⟨left, hleft, ?_⟩
  rw [(d.closed_close p _ _ _).stack, hstack, hbegun.stack]
  rfl

end Dispatcher

namespace Balance

/-- The body puts back as many frames as it takes, of which there is none beneath the call's. -/
def Restores (b : Balance) : Prop := b.left.length = b.taken ∧ b.taken ≤ 1

instance (b : Balance) : Decidable b.Restores := inferInstanceAs (Decidable (_ ∧ _))

variable {b : Balance}

theorem Restores.tail_eq (h : b.Restores) {left : List Frame} (hleft : left.map Frame.name = b.left)
    (opened : Frame) (before : List Frame) :
    (left ++ (opened :: before).drop b.taken).tail = before := by
  have hlength : left.length = b.taken := by rw [← h.1, ← hleft, List.length_map]
  have hle := h.2
  rw [← hlength] at hle ⊢
  match left with
  | [] => rfl
  | [f] => rfl
  | f :: g :: rest => simp at hle

theorem restores_of_lengths (h : ∀ n, b.left.length + (n + 1 - b.taken) - 1 = n) : b.Restores := by
  -- An empty stack and one as high as what the body takes are enough to tell.
  have hempty := h 0
  have htaken := h b.taken
  unfold Restores
  omega

end Balance

def World.withTimers (timers : TimerStacks) (w : World σ) : World σ :=
  (w.onTimers fun _ => ((), timers)).2

/-- A call takes the innermost frame of those that its body left and found, however it ends. So the
stack beneath the call is always as it was before just if the body leaves no frame and takes none, or
leaves one frame in the place of the call's own. -/
theorem stack_restored_iff (d : Dispatcher σ) (p : Place) (type : CallType)
    (operation : OperationName) (acts : List TimerAct) (ending : Ending) (w : World σ) :
    (∃ left, left.map Frame.name = (Balance.ofActs acts).left ∧
      d.stack p (d.runActs p type operation acts ending w) =
        (left ++ (.opened (operationKey w.dispatch.component type operation).text w.clock ::
          d.stack p w).drop (Balance.ofActs acts).taken).tail) ∧
    ((∀ timers, d.stack p (d.runActs p type operation acts ending (w.withTimers timers)) =
      d.stack p (w.withTimers timers)) ↔ (Balance.ofActs acts).Restores) := by
  refine ⟨d.stack_runActs p type operation acts ending w, fun h => ?_, fun h timers => ?_⟩
  · -- The body does not know how high the stack beneath it is.
    apply Balance.restores_of_lengths
    intro n
    have hbefore : d.stack p (w.withTimers (TimerStacks.empty.set p.context d.client.timer.id
        (List.replicate n ⟨"", 0, 0⟩))) = List.replicate n ⟨"", 0, 0⟩ :=
      TimerStacks.stack_set_self _ _ _ _
    obtain ⟨left, hleft, hstack⟩ := d.stack_runActs p type operation acts ending
      (w.withTimers (TimerStacks.empty.set p.context d.client.timer.id
        (List.replicate n ⟨"", 0, 0⟩)))
    rw [h, hbefore] at hstack
    have hlength := congrArg List.length hstack
    rw [List.length_tail, List.length_append, List.length_drop, List.length_cons,
      List.length_replicate, ← List.length_map (f := Frame.name), hleft] at hlength
    exact hlength.symm
  · obtain ⟨left, hleft, hstack⟩ :=
      d.stack_runActs p type operation acts ending (w.withTimers timers)
    rw [hstack]
    exact h.tail_eq hleft _ _

/-- A body that opens a section and does not end it. -/
theorem open_section_stays :
    Dispatcher.quiet.observed.stack ⟨0, none, none⟩ (Dispatcher.quiet.observed.runActs
      ⟨0, none, none⟩ .rpc .unresolved [.start ⟨"x"⟩] .failed .quiet) ≠
    Dispatcher.quiet.observed.stack ⟨0, none, none⟩ .quiet := by
  intro h
  obtain ⟨left, hleft, hstack⟩ := Dispatcher.quiet.observed.stack_runActs ⟨0, none, none⟩ .rpc
    .unresolved [.start ⟨"x"⟩] .failed .quiet
  rw [h] at hstack
  have hone : left.length = 1 := by rw [← List.length_map (f := Frame.name), hleft]; rfl
  have hlength := congrArg List.length hstack
  rw [List.length_tail, List.length_append, hone] at hlength
  cases hlength

end CallMetrics
