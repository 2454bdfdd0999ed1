import Mathlib.Data.List.Induction
import Mathlib.Data.List.NodupEquivFin
import Mathlib.Order.WellFounded
import CallMetrics.InFlight

/-! Levels of running calls. Whichever guards are dropped, and in whichever order, the count is the
number of guards that are alive (`Counts`), and a guard keeps the level that it entered at. The place
of a guard among those alive only falls, so it never comes to lie above the guard's level
(`Ranked`): no level tells of fewer calls than run. -/

namespace CallMetrics

/-- What can be done to a counter. Guards that are kept are numbered in the order of entry. -/
inductive CountAct
  | enter
  | drop (guard : Nat)
  | unwind
  deriving DecidableEq

namespace GuardBoard

def step (b : GuardBoard) : CountAct → GuardBoard
  | .enter => b.enter.2
  | .drop n => (b.drop n).2
  | .unwind => b.unwind

def run (acts : List CountAct) : GuardBoard := acts.foldl step empty

theorem run_concat (acts : List CountAct) (a : CountAct) :
    run (acts ++ [a]) = (run acts).step a := List.foldl_append ..

/-- The count is the number of guards that are alive, as far as words go. -/
def Counts (b : GuardBoard) : Prop := b.counter.count = .ofNat b.held.length

/-- Each guard that is alive has at least the level of its place among them, from one on. -/
def Ranked (guards : List InFlightGuard) : Prop :=
  ∀ i guard, guards[i]? = some guard → i + 1 ≤ guard.level.toNat

theorem Ranked.sublist {guards guards' : List InFlightGuard} (h : Ranked guards)
    (hsub : guards'.Sublist guards) : Ranked guards' := by
  intro i guard hi
  obtain ⟨place, hplace⟩ := List.sublist_iff_exists_orderEmbedding_getElem?_eq.1 hsub
  have hle : i ≤ place i := place.strictMono.le_apply
  have hlevel := h (place i) guard (by rw [← hplace, hi])
  omega

theorem Ranked.concat {guards : List InFlightGuard} (h : Ranked guards) {guard : InFlightGuard}
    (hguard : guard.level.toNat = guards.length + 1) : Ranked (guards ++ [guard]) := by
  intro i other hi
  rw [List.getElem?_append] at hi
  split at hi
  · exact h i other hi
  · rename_i hnot
    rw [List.getElem?_singleton] at hi
    split at hi
    · rename_i hlast
      obtain rfl := Option.some.inj hi
      omega
    · cases hi

section Step
variable {b : GuardBoard} {n : Nat} {guard : InFlightGuard}

theorem held_enter (b : GuardBoard) : b.enter.2.held = b.held ++ [b.enter.1] := by
  show (b.guards ++ [some b.enter.1]).filterMap id = _
  rw [List.filterMap_append]
  rfl

/-- A guard that is alive is taken away and leaves the count; nothing happens at any other number. -/
theorem drop_cases (b : GuardBoard) (n : Nat) :
    (∃ guard, b.guards[n]? = some (some guard) ∧
      b.drop n = (true, ⟨b.counter.leave, b.guards.set n none⟩)) ∨
    (∀ guard, b.guards[n]? ≠ some (some guard)) ∧ b.drop n = (false, b) := by
  by_cases halive : ∃ guard, b.guards[n]? = some (some guard)
  · obtain ⟨guard, hguard⟩ := halive
    exact .inl ⟨guard, hguard, by rw [drop, hguard]⟩
  · have hnot := not_exists.1 halive
    refine .inr ⟨hnot, ?_⟩
    unfold drop
    split
    · rename_i guard hguard
      exact absurd hguard (hnot guard)
    · rfl

/-- Of the guards that are alive, dropping one takes this one away. -/
theorem exists_held_set (h : b.guards[n]? = some (some guard)) (counter : InFlight) :
    ∃ older newer, b.held = older ++ guard :: newer ∧
      held ⟨counter, b.guards.set n none⟩ = older ++ newer := by
  obtain ⟨hn, hguard⟩ := List.getElem?_eq_some_iff.1 h
  have hsplit : b.guards = b.guards.take n ++ some guard :: b.guards.drop (n + 1) := by
    rw [← hguard, List.getElem_cons_drop, List.take_append_drop]
  have hset : b.guards.set n none = b.guards.take n ++ none :: b.guards.drop (n + 1) := by
    rw [List.set_eq_take_append_cons_drop, if_pos hn]
  refine ⟨(b.guards.take n).filterMap id, (b.guards.drop (n + 1)).filterMap id, ?_, ?_⟩
  · exact (congrArg (List.filterMap id) hsplit).trans List.filterMap_append
  · rw [held, hset, List.filterMap_append]
    rfl

theorem held_drop_sublist (b : GuardBoard) (n : Nat) : (b.drop n).2.held.Sublist b.held := by
  obtain ⟨guard, hguard, hdrop⟩ | ⟨-, hdrop⟩ := b.drop_cases n
  · obtain ⟨older, newer, hheld, hleft⟩ := exists_held_set hguard b.counter.leave
    rw [hdrop, hheld, hleft]
    exact (List.sublist_cons_self guard newer).append_left older
  · rw [hdrop]

theorem counts_empty : Counts empty := rfl

theorem Counts.step (h : b.Counts) (a : CountAct) : (b.step a).Counts := by
  cases a with
  | enter =>
    show b.counter.enter.2.count = .ofNat b.enter.2.held.length
    rw [held_enter, List.length_append]
    exact InFlight.count_enter h
  | drop n =>
    show (b.drop n).2.Counts
    obtain ⟨guard, hguard, hdrop⟩ | ⟨-, hdrop⟩ := b.drop_cases n
    · obtain ⟨older, newer, hheld, hleft⟩ := exists_held_set hguard b.counter.leave
      rw [hdrop, Counts, hleft]
      refine InFlight.count_leave (h.trans ?_)
      rw [hheld, List.length_append, List.length_append]
      rfl
    · rwa [hdrop]
  | unwind =>
    show b.counter.enter.2.leave.count = _
    rw [InFlight.leave_enter]
    exact h

theorem Counts.toNat_eq (h : b.Counts) (hroom : b.held.length < UInt64.size) :
    b.counter.count.toNat = b.held.length := by
  rw [h, UInt64.toNat_ofNat_of_lt' hroom]

theorem Counts.level_enter (h : b.Counts) (hroom : b.held.length + 1 < UInt64.size) :
    b.enter.1.level.toNat = b.held.length + 1 := InFlight.level_enter h hroom

/-- A guard that is dropped is taken from the count. -/
theorem Counts.count_drop (h : b.Counts) (hroom : b.held.length < UInt64.size)
    (hdropped : (b.drop n).1 = true) :
    (b.drop n).2.counter.count.toNat + 1 = b.counter.count.toNat := by
  have hcounts : (b.drop n).2.Counts := h.step (.drop n)
  obtain ⟨guard, hguard, hdrop⟩ | ⟨-, hdrop⟩ := b.drop_cases n
  · obtain ⟨older, newer, hheld, hleft⟩ := exists_held_set hguard b.counter.leave
    have hlength : (b.drop n).2.held.length + 1 = b.held.length := by
      rw [hdrop, hheld, hleft, List.length_append, List.length_append]
      rfl
    rw [h.toNat_eq hroom, hcounts.toNat_eq (by omega), hlength]
  · rw [hdrop] at hdropped
    cases hdropped

/-- A guard is alive after an act if the act enters it, or if it was alive and is not dropped. -/
theorem alive_step_iff (b : GuardBoard) (a : CountAct) (n : Nat) (guard : InFlightGuard) :
    (b.step a).guards[n]? = some (some guard) ↔
      (a = .enter ∧ b.guards.length = n ∧ guard = b.enter.1) ∨
        (a ≠ .drop n ∧ b.guards[n]? = some (some guard)) := by
  cases a with
  | enter =>
    show (b.guards ++ [some b.enter.1])[n]? = _ ↔ _
    rw [List.getElem?_append]
    split
    · rename_i hlt
      simp [Nat.ne_of_gt hlt]
    · rename_i hnot
      have hnone : b.guards[n]? = none := List.getElem?_eq_none (Nat.not_lt.1 hnot)
      have hlast : n - b.guards.length = 0 ↔ b.guards.length = n := by omega
      simp [List.getElem?_singleton, hnone, hlast, eq_comm (a := guard)]
  | drop m =>
    show (b.drop m).2.guards[n]? = _ ↔ _
    obtain ⟨other, hother, hdrop⟩ | ⟨hnot, hdrop⟩ := b.drop_cases m
    · rw [hdrop, List.getElem?_set]
      by_cases hm : m = n
      · simp [hm]
      · simp [hm]
    · rw [hdrop]
      by_cases hm : m = n
      · subst hm
        simp [hnot guard]
      · simp [hm]
  | unwind => simp [GuardBoard.step, unwind]

end Step

section Run
variable {acts : List CountAct}

theorem counts_run (acts : List CountAct) : (run acts).Counts := by
  induction acts using List.reverseRecOn with
  | nil => exact counts_empty
  | append_singleton acts a ih =>
    rw [run_concat]
    exact ih.step a

theorem length_guards_run (acts : List CountAct) :
    (run acts).guards.length = acts.count .enter := by
  induction acts using List.reverseRecOn with
  | nil => rfl
  | append_singleton acts a ih =>
    rw [run_concat, List.count_append, ← ih]
    cases a with
    | enter => exact List.length_append
    | drop n =>
      show (drop _ n).2.guards.length = _
      obtain ⟨guard, -, hdrop⟩ | ⟨-, hdrop⟩ := (run acts).drop_cases n
      · rw [hdrop]
        exact List.length_set
      · rw [hdrop]
        rfl
    | unwind => rfl

/-- The guard has been entered with this number, and has not been dropped since. -/
def Alive (n : Nat) (guard : InFlightGuard) (acts : List CountAct) : Prop :=
  ∃ before after, acts = before ++ .enter :: after ∧ before.count .enter = n ∧ .drop n ∉ after ∧
    guard = (run before).enter.1

theorem alive_concat_iff {n : Nat} {guard : InFlightGuard} {a : CountAct} :
    Alive n guard (acts ++ [a]) ↔
      (a = .enter ∧ acts.count .enter = n ∧ guard = (run acts).enter.1) ∨
        (a ≠ .drop n ∧ Alive n guard acts) := by
  constructor
  · rintro ⟨before, after, hacts, hn, hkept, hguard⟩
    rcases List.eq_nil_or_concat' after with rfl | ⟨after, last, rfl⟩
    · obtain ⟨rfl, ha⟩ := List.append_inj' hacts rfl
      exact .inl ⟨List.singleton_inj.1 ha, hn, hguard⟩
    · rw [← List.cons_append, ← List.append_assoc] at hacts
      obtain ⟨rfl, ha⟩ := List.append_inj' hacts rfl
      obtain rfl := List.singleton_inj.1 ha
      rw [List.mem_append, List.mem_singleton, not_or] at hkept
      exact .inr ⟨fun h => hkept.2 h.symm, before, after, rfl, hn, hkept.1, hguard⟩
  · rintro (⟨rfl, hn, hguard⟩ | ⟨ha, before, after, rfl, hn, hkept, hguard⟩)
    · exact ⟨acts, [], rfl, hn, List.not_mem_nil, hguard⟩
    · refine ⟨before, after ++ [a], by simp, hn, ?_, hguard⟩
      rw [List.mem_append, List.mem_singleton, not_or]
      exact ⟨hkept, ha.symm⟩

theorem guards_run_iff {n : Nat} {guard : InFlightGuard} :
    (run acts).guards[n]? = some (some guard) ↔ Alive n guard acts := by
  induction acts using List.reverseRecOn with
  | nil => simp [run, empty, Alive]
  | append_singleton acts a ih =>
    rw [run_concat, alive_step_iff, alive_concat_iff, ih, length_guards_run]

end Run

/-- At no moment are more guards alive than words can count. -/
def Few (acts : List CountAct) : Prop :=
  ∀ past, past <+: acts → (run past).held.length < UInt64.size

section Levels
variable {acts past : List CountAct}

theorem Few.of_prefix (h : Few acts) (hpast : past <+: acts) : Few past :=
  fun earlier hearlier => h earlier (hearlier.trans hpast)

/-- A guard enters at the level that is the number of guards alive right after it entered. -/
theorem Few.level_enter (h : Few (acts ++ [.enter])) :
    (run acts).enter.1.level.toNat = (run acts).held.length + 1 := by
  refine (counts_run acts).level_enter ?_
  have hroom := h _ (List.prefix_refl _)
  rwa [run_concat, step, held_enter, List.length_append] at hroom

theorem ranked_run (h : Few acts) : Ranked (run acts).held := by
  induction acts using List.reverseRecOn with
  | nil => simp [Ranked, run, empty, held]
  | append_singleton acts a ih =>
    have hranked := ih (h.of_prefix (List.prefix_append acts [a]))
    rw [run_concat]
    cases a with
    | enter =>
      rw [step, held_enter]
      exact hranked.concat h.level_enter
    | drop n => exact hranked.sublist (held_drop_sublist _ n)
    | unwind => exact hranked

/-- Where no guard is dropped, those that enter do so one level after the other. -/
theorem exists_newcomers (before : List CountAct) {between : List CountAct}
    (h : Few (before ++ between)) (hkept : ∀ n, .drop n ∉ between) :
    ∃ newcomers : List InFlightGuard,
      (run (before ++ between)).guards = (run before).guards ++ newcomers.map some ∧
        newcomers.map (·.level.toNat) =
          List.range' ((run before).held.length + 1) (between.count .enter) := by
  induction between using List.reverseRecOn with
  | nil => exact ⟨[], by simp, rfl⟩
  | append_singleton between a ih =>
    rw [← List.append_assoc] at h ⊢
    obtain ⟨newcomers, hguards, hlevels⟩ := ih (h.of_prefix (List.prefix_append _ [a]))
      fun n hn => hkept n (List.mem_append_left [a] hn)
    rw [run_concat]
    cases a with
    | enter =>
      have hlength : newcomers.length = between.count .enter := by
        simpa using congrArg List.length hlevels
      have hheld : (run (before ++ between)).held = (run before).held ++ newcomers := by
        rw [held, hguards, List.filterMap_append, List.filterMap_map]
        simp [held]
      refine ⟨newcomers ++ [(run (before ++ between)).enter.1], ?_, ?_⟩
      · show (run (before ++ between)).guards ++ [_] = _
        rw [hguards, List.map_append, List.append_assoc]
        rfl
      · rw [List.map_append, hlevels, List.count_append, List.map_singleton, h.level_enter, hheld,
          List.length_append, hlength, List.count_singleton_self, List.range'_1_concat]
        congr 2
        omega
    | drop n => exact absurd (List.mem_append_right _ (List.mem_singleton_self _)) (hkept n)
    | unwind =>
      refine ⟨newcomers, hguards, ?_⟩
      rw [List.count_append]
      exact hlevels

/-- A guard is known by its level, which is the number of guards alive right after it entered. -/
theorem alive_iff_level (h : Few acts) {n : Nat} {guard : InFlightGuard} :
    Alive n guard acts ↔ ∃ before after, acts = before ++ .enter :: after ∧
      before.count .enter = n ∧ .drop n ∉ after ∧
        guard.level.toNat = (run (before ++ [.enter])).held.length := by
  refine exists₂_congr fun before after => and_congr_right fun hacts =>
    and_congr_right fun _ => and_congr_right fun _ => ?_
  have hentered : Few (before ++ [.enter]) := h.of_prefix ⟨after, by rw [hacts]; simp⟩
  rw [run_concat, step, held_enter, List.length_append, List.length_singleton,
    ← hentered.level_enter, UInt64.toNat_inj]
  exact ⟨congrArg InFlightGuard.level, fun hlevel => by
    cases guard
    exact congrArg InFlightGuard.mk hlevel⟩

end Levels
end GuardBoard

open GuardBoard in
/-- At every moment the count is the number of guards that are alive, and a guard that is dropped is
taken from it. The guards alive are those that have been entered and not dropped since, each with the
level that is the number alive right after it entered; of those alive, the first has at least level
one, the second at least level two, and so on. While none is dropped, the levels at which guards
enter are consecutive. -/
theorem levels_cover_running_calls (acts : List CountAct) (hfew : Few acts) :
    ∀ past, past <+: acts →
      let b := run past
      b.counter.count.toNat = b.held.length ∧
      (∀ n, (b.drop n).1 = true →
        (b.drop n).2.counter.count.toNat + 1 = b.counter.count.toNat) ∧
      (b.held.length + 1 < UInt64.size → b.enter.1.level.toNat = b.enter.2.held.length) ∧
      (∀ n guard, b.guards[n]? = some (some guard) ↔
        ∃ before after, past = before ++ .enter :: after ∧ before.count .enter = n ∧
          .drop n ∉ after ∧ guard.level.toNat = (run (before ++ [.enter])).held.length) ∧
      (∀ i guard, b.held[i]? = some guard → i + 1 ≤ guard.level.toNat) ∧
      ∀ before between, past = before ++ between → (∀ n, .drop n ∉ between) →
        ∃ newcomers : List InFlightGuard,
          b.guards = (run before).guards ++ newcomers.map some ∧
          newcomers.map (·.level.toNat) =
            List.range' ((run before).held.length + 1) (between.count .enter) := by
  intro past hpast b
  have hpastFew : Few past := hfew.of_prefix hpast
  have hcounts : b.Counts := counts_run past
  have hroom : b.held.length < UInt64.size := hpastFew past (List.prefix_refl past)
  refine ⟨hcounts.toNat_eq hroom, fun n => hcounts.count_drop hroom, fun hmore => ?_,
    fun n guard => guards_run_iff.trans (alive_iff_level hpastFew), ranked_run hpastFew, ?_⟩
  · rw [hcounts.level_enter hmore, held_enter, List.length_append]
    rfl
  · rintro before between rfl hkept
    exact exists_newcomers before hpastFew hkept

/-- Three guards enter, the second one goes, a call unwinds, one more guard enters and the first one
goes: the two guards that are left have the same level. -/
def crossedActs : List CountAct := [.enter, .enter, .enter, .drop 1, .unwind, .enter, .drop 0]

theorem few_crossedActs : GuardBoard.Few crossedActs := by
  intro past hpast
  have hall : ∀ k ≤ crossedActs.length,
      (GuardBoard.run (crossedActs.take k)).held.length < UInt64.size := by decide
  rw [List.prefix_iff_eq_take.1 hpast]
  exact hall past.length hpast.length_le

theorem levels_cover_running_calls_crossed :
    GuardBoard.Few crossedActs ∧
      (GuardBoard.run crossedActs).held.map (·.level) = [3, 3] ∧
      (GuardBoard.run crossedActs).counter.count.toNat =
        (GuardBoard.run crossedActs).held.length ∧
      ∀ i guard, (GuardBoard.run crossedActs).held[i]? = some guard → i + 1 ≤ guard.level.toNat := by
  obtain ⟨hcount, -, -, -, hranked, -⟩ :=
    levels_cover_running_calls crossedActs few_crossedActs crossedActs (List.prefix_refl _)
  exact ⟨few_crossedActs, by decide, hcount, hranked⟩

end CallMetrics
