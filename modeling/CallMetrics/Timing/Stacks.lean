import CallMetrics.Timing.Frame

/-! Stacks of open sections, one for each execution context and timer. Only stacks with open
sections are stored; `stack` shows the others as empty. -/

namespace CallMetrics

/-- What a stack belongs to: a thread, or a task scope entered on one. -/
inductive Context
  | thread (n : Nat)
  | scope (n : Nat)
  deriving DecidableEq, Repr

abbrev TimerId := Nat

structure TimerStacks where
  entries : List ((Context × TimerId) × List Frame)

namespace TimerStacks

def empty : TimerStacks := ⟨[]⟩

/-- The open sections of a timer in a context, innermost first. -/
def stack (s : TimerStacks) (context : Context) (timer : TimerId) : List Frame :=
  (s.entries.lookup (context, timer)).getD []

/-- Stores a stack; an empty one is removed. -/
def set (s : TimerStacks) (context : Context) (timer : TimerId) (frames : List Frame) :
    TimerStacks :=
  let others := s.entries.filter (·.1 != (context, timer))
  ⟨if frames.isEmpty then others else ((context, timer), frames) :: others⟩

def leave (s : TimerStacks) (context : Context) : TimerStacks :=
  ⟨s.entries.filter (·.1.1 != context)⟩

theorem lookup_filter_ne (key key' : Context × TimerId)
    (entries : List ((Context × TimerId) × List Frame)) :
    (entries.filter (·.1 != key)).lookup key' =
      if key' = key then none else entries.lookup key' := by
  induction entries with
  | nil => simp
  | cons e rest ih =>
    by_cases he : e.1 = key
    · rw [List.filter_cons_of_neg (by simp [he]), ih, List.lookup_cons]
      by_cases hk : key' = key
      · rw [if_pos hk, if_pos hk]
      · have hne : (key' == e.1) = false := beq_eq_false_iff_ne.2 fun h => hk (h.trans he)
        rw [if_neg hk, if_neg hk, hne]
    · rw [List.filter_cons_of_pos (by simp [he]), List.lookup_cons, List.lookup_cons, ih]
      by_cases hk : key' = key
      · have hne : (key' == e.1) = false := beq_eq_false_iff_ne.2 fun h => he (h.symm.trans hk)
        rw [if_pos hk, if_pos hk, hne]
      · rw [if_neg hk, if_neg hk]

theorem stack_set (s : TimerStacks) (c c' : Context) (t t' : TimerId) (frames : List Frame) :
    (s.set c t frames).stack c' t' = if (c', t') = (c, t) then frames else s.stack c' t' := by
  cases frames with
  | nil =>
    change ((s.entries.filter (·.1 != (c, t))).lookup (c', t')).getD [] = _
    rw [lookup_filter_ne]
    split <;> rfl
  | cons f rest =>
    change ((((c, t), f :: rest) :: s.entries.filter (·.1 != (c, t))).lookup (c', t')).getD [] = _
    rw [List.lookup_cons, lookup_filter_ne]
    by_cases hk : (c', t') = (c, t)
    · rw [if_pos hk, if_pos hk, beq_iff_eq.2 hk]
      rfl
    · rw [if_neg hk, if_neg hk, beq_eq_false_iff_ne.2 hk]
      rfl

@[simp] theorem stack_set_self (s : TimerStacks) (c : Context) (t : TimerId) (frames : List Frame) :
    (s.set c t frames).stack c t = frames := by rw [stack_set, if_pos rfl]

theorem stack_set_of_ne (s : TimerStacks) {c c' : Context} {t t' : TimerId}
    (h : (c', t') ≠ (c, t)) (frames : List Frame) :
    (s.set c t frames).stack c' t' = s.stack c' t' := by rw [stack_set, if_neg h]

def push (s : TimerStacks) (context : Context) (timer : TimerId) (f : Frame) : TimerStacks :=
  s.set context timer (f :: s.stack context timer)

/-- Drops the innermost section; tells whether there was one. -/
def cancel (s : TimerStacks) (context : Context) (timer : TimerId) : Bool × TimerStacks :=
  match s.stack context timer with
  | [] => (false, s)
  | _ :: rest => (true, s.set context timer rest)

def finish (s : TimerStacks) (context : Context) (timer : TimerId) (name : String) (now : Clock) :
    Except TimerMismatch TimerReading × TimerStacks :=
  let (result, rest) := endFrame name now (s.stack context timer)
  (result, s.set context timer rest)

/-- Dropping and ending both take the innermost section away. -/
@[simp] theorem stack_cancel (s : TimerStacks) (c : Context) (t : TimerId) :
    (s.cancel c t).2.stack c t = (s.stack c t).tail := by
  unfold cancel
  split
  · rename_i h
    simp [h]
  · rename_i h
    simp [h]

theorem stack_cancel_of_ne (s : TimerStacks) {c c' : Context} {t t' : TimerId}
    (h : (c', t') ≠ (c, t)) : (s.cancel c t).2.stack c' t' = s.stack c' t' := by
  unfold cancel
  split
  · rfl
  · exact stack_set_of_ne s h _

@[simp] theorem stack_finish (s : TimerStacks) (c : Context) (t : TimerId) (name : String)
    (now : Clock) : (s.finish c t name now).2.stack c t = (s.stack c t).tail := by
  rw [finish, stack_set_self, endFrame_snd]

theorem stack_finish_of_ne (s : TimerStacks) {c c' : Context} {t t' : TimerId}
    (h : (c', t') ≠ (c, t)) (name : String) (now : Clock) :
    (s.finish c t name now).2.stack c' t' = s.stack c' t' := stack_set_of_ne s h _

def depth (s : TimerStacks) (context : Context) (timer : TimerId) : Nat :=
  (s.stack context timer).length

end TimerStacks
end CallMetrics
