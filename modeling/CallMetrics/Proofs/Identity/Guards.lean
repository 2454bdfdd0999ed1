import Mathlib.Data.List.Induction
import Mathlib.Data.List.Nodup
import CallMetrics.Identity

/-! Guards of a thread's user. A guard that is dropped brings back the user that was bound right
before it was entered, whatever has been entered and dropped since. So the user of the newest guard
is the one bound at all times just if each guard that is dropped is the newest
(`guards_bind_newest_iff`). -/

namespace CallMetrics
open Text

/-- Guards are numbered by the acts that enter them. -/
inductive GuardAct
  | enter
  | drop (guard : Nat)

/-- The users bound after some acts on one thread, and the guards of it that are alive, the newest
first. -/
structure Guards where
  users : ThreadUsers
  alive : List (Nat × UserGuard)
  acts : Nat

theorem ThreadUsers.get?_set (b : ThreadUsers) (thread : Nat) (user : Option UserId) :
    (b.set thread user).get? thread = user := by
  cases user with
  | none =>
    exact List.lookup_eq_none_iff.2 fun e he => bne_comm.trans (List.mem_filter.1 he).2
  | some u => simp [set, get?]

namespace Guards
variable (thread : Nat) (user : Nat → UserId)

def start : Guards := ⟨.empty, [], 0⟩

def step (s : Guards) : GuardAct → Guards
  | .enter =>
    let (guard, users) := s.users.enter thread (user s.acts)
    ⟨users, (s.acts, guard) :: s.alive, s.acts + 1⟩
  | .drop n =>
    match s.alive.lookup n with
    | some guard => ⟨s.users.drop thread guard, s.alive.filter (·.1 ≠ n), s.acts + 1⟩
    | none => { s with acts := s.acts + 1 }

def run (acts : List GuardAct) : Guards := acts.foldl (step thread user) start

def bound (s : Guards) : Option UserId := s.users.get? thread

def numbers (s : Guards) : List Nat := s.alive.map (·.1)

/-- What a lookup outside of tasks answers. -/
def answer (s : Guards) : Except IdentityError UserId :=
  Identity.bound.answer ⟨none, s.bound thread, 0⟩

/-- The user of the newest guard, if one is alive. -/
def newest (s : Guards) : Except IdentityError UserId :=
  match s.numbers with
  | [] => .error (.unavailable "no user bound to the current execution context")
  | n :: _ => .ok (user n)

/-- Of the guards that are alive, the one that is dropped is the newest. -/
def LastFirst (alive : List Nat) (next : Nat) : List GuardAct → Prop
  | [] => True
  | .enter :: rest => LastFirst (next :: alive) (next + 1) rest
  | .drop n :: rest =>
    (n ∈ alive → alive.head? = some n) ∧ LastFirst (alive.filter (· ≠ n)) (next + 1) rest

theorem run_concat (acts : List GuardAct) (a : GuardAct) :
    run thread user (acts ++ [a]) = (run thread user acts).step thread user a :=
  List.foldl_append ..

section Restoring
variable {thread user}

theorem acts_step (s : Guards) (a : GuardAct) : (s.step thread user a).acts = s.acts + 1 := by
  cases a with
  | enter => rfl
  | drop n =>
    unfold step
    dsimp only
    split <;> rfl

theorem acts_run (acts : List GuardAct) : (run thread user acts).acts = acts.length := by
  induction acts using List.reverseRecOn with
  | nil => rfl
  | append_singleton acts a ih => rw [run_concat, acts_step, ih, List.length_append]; rfl

/-- A guard that is alive was entered by its act and holds what was bound then. -/
theorem replaced_run (acts : List GuardAct) : ∀ e ∈ (run thread user acts).alive,
    e.1 < acts.length ∧ e.2.replaced = (run thread user (acts.take e.1)).bound thread := by
  induction acts using List.reverseRecOn with
  | nil => simp [run, start]
  | append_singleton acts a ih =>
    have hearlier : ∀ e ∈ (run thread user acts).alive, e.1 < (acts ++ [a]).length ∧
        e.2.replaced = (run thread user ((acts ++ [a]).take e.1)).bound thread := by
      intro e he
      obtain ⟨hlt, hreplaced⟩ := ih e he
      rw [List.take_append_of_le_length (Nat.le_of_lt hlt)]
      exact ⟨by simp; omega, hreplaced⟩
    rw [run_concat]
    cases a with
    | enter =>
      intro e he
      rcases List.mem_cons.1 he with rfl | he
      · rw [acts_run]
        exact ⟨by simp, by rw [List.take_left]; rfl⟩
      · exact hearlier e he
    | drop n =>
      unfold step
      dsimp only
      split
      · exact fun e he => hearlier e (List.mem_filter.1 he).1
      · exact hearlier

end Restoring

section Entries
variable {n : Nat} {alive : List (Nat × UserGuard)}

theorem lookup_eq_none_iff : alive.lookup n = none ↔ n ∉ alive.map (·.1) := by
  simp only [List.lookup_eq_none_iff, List.mem_map, not_exists, not_and, bne_iff_ne]
  exact forall₂_congr fun _ _ => ne_comm

theorem filter_ne_self (h : n ∉ alive.map (·.1)) : alive.filter (·.1 ≠ n) = alive :=
  List.filter_eq_self.2 fun e he =>
    decide_eq_true fun hn : e.1 = n => h (List.mem_map.2 ⟨e, he, hn⟩)

end Entries

theorem bound_drop (s : Guards) (n : Nat) :
    (s.step thread user (.drop n)).bound thread =
      (s.alive.lookup n).elim (s.bound thread) UserGuard.replaced := by
  unfold step
  dsimp only
  split
  · rename_i guard hguard
    rw [hguard]
    exact ThreadUsers.get?_set _ _ _
  · rename_i hnone
    rw [hnone]
    rfl

/-- Dropping a guard that is alive brings back what was bound right before its act. -/
theorem bound_drop_run (acts : List GuardAct) (k n : Nat) :
    ((run thread user (acts.take k)).step thread user (.drop n)).bound thread =
      if n ∈ (run thread user (acts.take k)).numbers then
        (run thread user (acts.take n)).bound thread
      else (run thread user (acts.take k)).bound thread := by
  rw [bound_drop]
  split
  · rename_i hn
    obtain ⟨guard, hguard⟩ :=
      Option.ne_none_iff_exists'.1 fun hnone => lookup_eq_none_iff.1 hnone hn
    obtain ⟨newer, older, halive, -⟩ := List.lookup_eq_some_iff.1 hguard
    obtain ⟨hlt, hreplaced⟩ := replaced_run (acts.take k) (n, guard)
      (halive ▸ List.mem_append_cons_self)
    have hle : n ≤ k := Nat.le_of_lt (Nat.lt_of_lt_of_le hlt (List.length_take_le k acts))
    rw [List.take_take, Nat.min_eq_left hle] at hreplaced
    rw [hguard]
    exact hreplaced
  · rename_i hn
    rw [lookup_eq_none_iff.2 hn]
    rfl

theorem alive_drop (s : Guards) (n : Nat) :
    (s.step thread user (.drop n)).alive = s.alive.filter (·.1 ≠ n) := by
  unfold step
  dsimp only
  split
  · rfl
  · rename_i hnone
    exact (filter_ne_self (lookup_eq_none_iff.1 hnone)).symm

theorem numbers_drop (s : Guards) (n : Nat) :
    (s.step thread user (.drop n)).numbers = s.numbers.filter (· ≠ n) := by
  rw [numbers, numbers, alive_drop, List.filter_map]
  rfl

/-- The newest guard is the one whose user is bound, and each guard holds the user of the one
before it. -/
def Chained (bound : Option UserId) : List (Nat × UserGuard) → Prop
  | [] => bound = none
  | (n, guard) :: rest => bound = some (user n) ∧ Chained guard.replaced rest

structure Stacked (s : Guards) : Prop where
  nodup : s.numbers.Nodup
  lt : ∀ n ∈ s.numbers, n < s.acts
  chained : Chained user (s.bound thread) s.alive

section Stacked
variable {thread user} {s : Guards}

theorem Chained.bound_eq {bound : Option UserId} {alive : List (Nat × UserGuard)}
    (h : Chained user bound alive) : bound = (alive.map (·.1)).head?.map user := by
  cases alive with
  | nil => exact h
  | cons e rest => exact h.1

theorem Chained.replaced_eq {bound : Option UserId} {alive : List (Nat × UserGuard)}
    (h : Chained user bound alive) {n : Nat} {guard : UserGuard}
    (hn : alive.lookup n = some guard) : ∃ later older, alive.map (·.1) = later ++ n :: older ∧
      guard.replaced = older.head?.map user := by
  induction alive generalizing bound with
  | nil => cases hn
  | cons e rest ih =>
    rw [List.lookup_cons] at hn
    split at hn
    · rename_i he
      obtain rfl := Option.some.inj hn
      exact ⟨[], rest.map (·.1), by simp [beq_iff_eq.1 he], h.2.bound_eq⟩
    · obtain ⟨later, older, hrest, hreplaced⟩ := ih h.2 hn
      exact ⟨e.1 :: later, older, by simp [hrest], hreplaced⟩

theorem answer_eq_newest_iff :
    s.answer thread = s.newest user ↔ s.bound thread = s.numbers.head?.map user := by
  unfold answer newest
  cases s.bound thread <;> cases s.numbers <;> simp [Identity.bound]

theorem stacked_start : Stacked thread user start := ⟨List.nodup_nil, by simp [start, numbers], rfl⟩

theorem Stacked.enter (h : s.Stacked thread user) :
    (s.step thread user .enter).Stacked thread user where
  nodup := List.nodup_cons.2 ⟨fun hn => Nat.lt_irrefl _ (h.lt _ hn), h.nodup⟩
  lt n hn := by
    rcases List.mem_cons.1 hn with rfl | hn
    · exact Nat.lt_succ_self _
    · exact Nat.lt_succ_of_lt (h.lt n hn)
  chained := ⟨ThreadUsers.get?_set _ _ _, h.chained⟩

/-- Dropping a guard binds the user of the next older one that is alive. -/
theorem Stacked.bound_drop (h : s.Stacked thread user) {n : Nat} (hn : n ∈ s.numbers) :
    ∃ later older, s.numbers = later ++ n :: older ∧
      (s.step thread user (.drop n)).numbers = later ++ older ∧
      (s.step thread user (.drop n)).bound thread = older.head?.map user := by
  obtain ⟨guard, hguard⟩ := Option.ne_none_iff_exists'.1 fun hnone => lookup_eq_none_iff.1 hnone hn
  obtain ⟨later, older, hnumbers, hreplaced⟩ := h.chained.replaced_eq hguard
  refine ⟨later, older, hnumbers, ?_, ?_⟩
  · have hnodup : (later ++ n :: older).Nodup := hnumbers ▸ h.nodup
    have hne : ∀ m ∈ later ++ older, m ≠ n := fun m hm hmn =>
      (List.nodup_cons.1 (List.nodup_middle.1 hnodup)).1 (hmn ▸ hm)
    rw [numbers_drop, numbers, hnumbers, List.filter_append, List.filter_cons_of_neg (by simp),
      ← List.filter_append]
    exact List.filter_eq_self.2 fun m hm => decide_eq_true (hne m hm)
  · rw [Guards.bound_drop, hguard]
    exact hreplaced

theorem Stacked.drop (h : s.Stacked thread user) {n : Nat}
    (hnewest : n ∈ s.numbers → s.numbers.head? = some n) :
    (s.step thread user (.drop n)).Stacked thread user := by
  refine ⟨?_, fun m hm => ?_, ?_⟩
  · rw [numbers_drop]
    exact h.nodup.filter _
  · rw [numbers_drop] at hm
    rw [acts_step]
    exact Nat.lt_succ_of_lt (h.lt m (List.mem_filter.1 hm).1)
  · have hchained := h.chained
    have hnodup := h.nodup
    rw [Guards.bound_drop, alive_drop]
    rw [numbers] at hnodup hnewest
    by_cases hn : n ∈ s.alive.map (·.1)
    · cases halive : s.alive with
      | nil => simp [halive] at hn
      | cons e rest =>
        rw [halive] at hchained hnodup hnewest hn
        obtain rfl : e.1 = n := Option.some.inj (hnewest hn)
        rw [List.filter_cons_of_neg (by simp), filter_ne_self (List.nodup_cons.1 hnodup).1,
          List.lookup_cons, beq_self_eq_true]
        exact hchained.2
    · rw [filter_ne_self hn, lookup_eq_none_iff.2 hn]
      exact hchained

/-- While the guards that are dropped are the newest, the user of the newest is bound. -/
theorem Stacked.follows (h : s.Stacked thread user) (acts : List GuardAct)
    (hacts : LastFirst s.numbers s.acts acts) (k : Nat) :
    let s' := (acts.take k).foldl (step thread user) s
    s'.answer thread = s'.newest user := by
  induction acts generalizing s k with
  | nil =>
    rw [List.take_nil]
    exact answer_eq_newest_iff.2 h.chained.bound_eq
  | cons a rest ih =>
    cases k with
    | zero => exact answer_eq_newest_iff.2 h.chained.bound_eq
    | succ k =>
      cases a with
      | enter => exact ih h.enter hacts k
      | drop n =>
        refine ih (h.drop hacts.1) ?_ k
        rw [numbers_drop, acts_step]
        exact hacts.2

/-- With users that differ, dropping any other guard than the newest one leaves another user bound
than that of the newest. -/
theorem Stacked.lastFirst (hinj : Function.Injective user) (h : s.Stacked thread user)
    (acts : List GuardAct) (hfollows : ∀ k, let s' := (acts.take k).foldl (step thread user) s
      s'.answer thread = s'.newest user) : LastFirst s.numbers s.acts acts := by
  induction acts generalizing s with
  | nil => trivial
  | cons a rest ih =>
    cases a with
    | enter => exact ih h.enter fun k => hfollows (k + 1)
    | drop n =>
      have hnewest : n ∈ s.numbers → s.numbers.head? = some n := by
        intro hn
        obtain ⟨later, older, hnumbers, hdropped, hbound⟩ := h.bound_drop hn
        have hhead := answer_eq_newest_iff.1 (hfollows 1)
        change (s.step thread user (.drop n)).bound thread =
          (s.step thread user (.drop n)).numbers.head?.map user at hhead
        rw [hbound, hdropped] at hhead
        have hnodup := h.nodup
        rw [hnumbers] at hnodup ⊢
        cases later with
        | nil => rfl
        | cons m later =>
          -- The newest guard stays, and an older one's user is bound.
          obtain ⟨m', hm', huser⟩ := Option.map_eq_some_iff.1 hhead
          rw [hinj huser] at hm'
          have holder : m ∈ older := List.mem_of_mem_head? hm'
          exact absurd (by simp [holder]) (List.nodup_cons.1 hnodup).1
      refine ⟨hnewest, ?_⟩
      rw [← numbers_drop thread user, ← acts_step s (.drop n)]
      exact ih (h.drop hnewest) fun k => hfollows (k + 1)

end Stacked

/-- A different user for each number. -/
def numbered (n : Nat) : UserId where
  text := String.ofList (List.replicate (n + 1) 'u')
  trimmed := by
    refine ⟨by simp, trim_eq_self_iff.2 (trimBlanks_eq_self ?_ ?_)⟩
    all_goals simp [List.head?_replicate, List.getLast?_replicate, isBlank]

theorem numbered_injective : Function.Injective numbered := by
  intro m n h
  have hlength := congrArg (fun u => u.text.toList.length) h
  simpa [numbered] using hlength

end Guards

/-- An entered guard binds its user, and one that is dropped brings back the user that was bound
right before it was entered. So whoever the guards are for, the answer is at all times the user of
the newest one that is alive just if every guard that is dropped is the newest. -/
theorem guards_bind_newest_iff (thread : Nat) (acts : List GuardAct) :
    (∀ user k, let s := Guards.run thread user (acts.take k)
      (s.step thread user .enter).bound thread = some (user s.acts) ∧
      ∀ n, (s.step thread user (.drop n)).bound thread =
        if n ∈ s.numbers then (Guards.run thread user (acts.take n)).bound thread
        else s.bound thread) ∧
    ((∀ user k, let s := Guards.run thread user (acts.take k)
      s.answer thread = s.newest user) ↔ Guards.LastFirst [] 0 acts) := by
  refine ⟨fun user k => ⟨ThreadUsers.get?_set _ _ _, Guards.bound_drop_run thread user acts k⟩,
    fun h => ?_, fun h user k => ?_⟩
  · exact Guards.stacked_start.lastFirst Guards.numbered_injective acts fun k => h _ k
  · exact Guards.stacked_start.follows acts h k

/-- The outer one of two guards is dropped first. -/
def outerFirst : List GuardAct := [.enter, .enter, .drop 0, .drop 1]

theorem dropped_guards_leave_user :
    let user := Guards.numbered
    (Guards.run 0 user (outerFirst.take 3)).numbers = [1] ∧
      (Guards.run 0 user (outerFirst.take 3)).bound 0 = none ∧
      (Guards.run 0 user outerFirst).numbers = [] ∧
      (Guards.run 0 user outerFirst).answer 0 = .ok (user 0) := ⟨rfl, rfl, rfl, rfl⟩

end CallMetrics
