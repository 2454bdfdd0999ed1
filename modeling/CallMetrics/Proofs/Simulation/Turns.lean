import Mathlib.Algebra.BigOperators.Group.Finset.Basic
import Mathlib.Data.Nat.Init
import CallMetrics.Proofs.Engine.Lookups
import CallMetrics.Proofs.Metric.Tables
import CallMetrics.Simulation.Workload

/-! The turns of a round. A worker that has had `n` turns has ended `n / 2` calls, and one more runs
if `n` is odd; a turn takes one more step as long as calls are left. From the steps of the workers
follow all totals, in whatever order the turns came (`Books.turn`). -/

namespace CallMetrics
open Finset
variable {σ : Type}

theorem sum_range_update {w i v δ : Nat} (steps g : Nat → Nat) (hi : i < w)
    (hv : g v = g (steps i) + δ) :
    ∑ j ∈ range w, g (Function.update steps i v j) = ∑ j ∈ range w, g (steps j) + δ := by
  have hmem : i ∈ range w := mem_range.2 hi
  have hothers : ∑ j ∈ (range w).erase i, g (Function.update steps i v j) =
      ∑ j ∈ (range w).erase i, g (steps j) :=
    sum_congr rfl fun j hj => by rw [Function.update_of_ne (ne_of_mem_erase hj)]
  rw [← add_sum_erase _ _ hmem, ← add_sum_erase _ _ hmem, hothers, Function.update_self, hv]
  omega

/-- Odd workers make requests. -/
def callType (index : Nat) : CallType := if index % 2 = 1 then .get else .rpc

theorem rpc_ne_get : CallType.rpc ≠ .get := by decide

/-- How many of the two types of calls have a site. -/
def DispatchState.siteCount (s : DispatchState) : Nat :=
  (if (s.site? .rpc).isSome then 1 else 0) + if (s.site? .get).isSome then 1 else 0

theorem siteCount_insert {s s' : DispatchState} {index : Nat}
    (h : ∀ t, (s'.site? t).isSome ↔ t = callType index ∨ (s.site? t).isSome) :
    s'.siteCount = s.siteCount + if (s.site? (callType index)).isSome then 0 else 1 := by
  have hrpc := h .rpc
  have hget := h .get
  unfold DispatchState.siteCount
  unfold callType at *
  by_cases hodd : index % 2 = 1
  · rw [if_pos hodd] at *
    rw [or_iff_right rpc_ne_get] at hrpc
    simp only [hrpc, hget, true_or, if_true]
    by_cases hknown : (s.site? .get).isSome <;> simp [hknown]
  · rw [if_neg hodd] at *
    rw [or_iff_right rpc_ne_get.symm] at hget
    simp only [hrpc, hget, true_or, if_true]
    by_cases hknown : (s.site? .rpc).isSome <;> simp [hknown]
    omega

/-- A worker that has had some turns: half of them have ended a call. -/
structure Worker.HasTaken (worker : Worker) (steps : Nat) : Prop where
  made : worker.made = steps / 2
  busy : worker.current.isSome ↔ steps % 2 = 1

namespace WorkloadEngine
variable (e : WorkloadEngine)

/-- What the beginning of a worker's call does to what is reported. -/
structure CallBegun (index : Nat) (w w' : World σ) : Prop where
  asked : w.dispatch.cache.AskedMore
    ((if (w.dispatch.site? (callType index)).isSome then 0 else 2) + 6) w'.dispatch.cache
  known : ∀ t, (w'.dispatch.site? t).isSome ↔ t = callType index ∨ (w.dispatch.site? t).isSome
  registries : w'.registries = w.registries
  history : w'.history = w.history

theorem callBegun_begin (d : Dispatcher σ) (p : Place) (index : Nat) (operation : OperationName)
    (w : World σ) : CallBegun index w (d.begin p (callType index) operation w).2 :=
  ⟨d.asked_begin p w _ operation, d.known_begin p w _ operation,
    (d.begun_begin p _ operation w).registries, d.history_begin p w _ operation⟩

theorem callBegun_beginCall (index : Nat) (worker : Worker) (operation : OperationName)
    (w : World Journal) : CallBegun index w (e.beginCall index worker operation w).2 := by
  unfold beginCall
  split
  · rename_i hodd
    have hkeys := e.dispatcher.requestKeys_fst w "get" ("/" ++ operation.text)
    have hlooked := e.dispatcher.looked_requestKeys w "get" ("/" ++ operation.text)
    have haside := e.dispatcher.aside_requestKeys w "get" ("/" ++ operation.text)
    have hget : Dispatcher.requestType "get" = callType index := by
      rw [callType, if_pos hodd]
      decide +kernel
    generalize e.dispatcher.requestKeys "get" ("/" ++ operation.text) w = found at *
    obtain ⟨⟨type, path⟩, w'⟩ := found
    obtain ⟨rfl, rfl⟩ := Prod.mk.inj hkeys
    dsimp only
    rw [hget]
    have hbegun := callBegun_begin e.dispatcher worker.place index
      (Dispatcher.requestOperation ("/" ++ operation.text)) w'
    refine ⟨?_, fun t => ?_, hbegun.registries.trans haside.registries,
      hbegun.history.trans hlooked.history⟩
    · have hasked := hlooked.asked.trans hbegun.asked
      rw [Nat.zero_add, hlooked.site?] at hasked
      exact hasked
    · rw [hbegun.known, hlooked.site?]
  · rename_i heven
    have hrpc : CallType.rpc = callType index := by rw [callType, if_neg heven]
    rw [hrpc]
    exact callBegun_begin e.dispatcher worker.place index operation w

structure Staffed (steps : Nat → Nat) (p : Progress) : Prop where
  length : p.workers.length = e.workload.workers
  taken : ∀ i (worker : Worker), p.workers[i]? = some worker → worker.HasTaken (steps i)
  le : ∀ i < e.workload.workers, steps i ≤ 2 * e.workload.calls

/-- The totals after some rounds and after the steps that workers have taken since. -/
structure Books (rounds : Nat) (steps : Nat → Nat) (p : Progress) : Prop where
  ended : p.succeeded + p.failed = rounds * (e.workload.workers * e.workload.calls) +
    ∑ i ∈ range e.workload.workers, steps i / 2
  failed : p.failed = rounds * (e.workload.workers * (e.workload.calls / e.workload.failEvery)) +
    ∑ i ∈ range e.workload.workers, steps i / 2 / e.workload.failEvery
  asked : p.world.dispatch.cache.Asked
    (6 * (rounds * (e.workload.workers * e.workload.calls) +
      ∑ i ∈ range e.workload.workers, (steps i + 1) / 2) + 2 * p.world.dispatch.siteCount)
  known : ∀ t, (p.world.dispatch.site? t).isSome ↔
    ∃ i < e.workload.workers, callType i = t ∧ 0 < rounds + steps i
  counted : Counted p.failed (e.dispatcher.client.registry p.world).counters.entries
  filled : 0 < p.succeeded + p.failed → 0 < (e.dispatcher.client.registry p.world).size

variable {e} {rounds : Nat} {steps : Nat → Nat} {p : Progress} {i : Nat}

theorem exists_called_update (hi : i < e.workload.workers) (t : CallType) :
    (∃ j < e.workload.workers, callType j = t ∧
      0 < rounds + Function.update steps i (steps i + 1) j) ↔
    t = callType i ∨ ∃ j < e.workload.workers, callType j = t ∧ 0 < rounds + steps j := by
  constructor
  · rintro ⟨j, hj, htype, hpos⟩
    by_cases hji : j = i
    · exact .inl (hji ▸ htype.symm)
    · rw [Function.update_of_ne hji] at hpos
      exact .inr ⟨j, hj, htype, hpos⟩
  · rintro (rfl | ⟨j, hj, htype, hpos⟩)
    · exact ⟨i, hi, rfl, by rw [Function.update_self]; omega⟩
    · refine ⟨j, hj, htype, ?_⟩
      by_cases hji : j = i
      · rw [hji, Function.update_self]
        omega
      · rwa [Function.update_of_ne hji]

theorem fails_iff (w : Workload) (call : Nat) : w.fails call ↔ w.failEvery ∣ call + 1 := by
  rw [Workload.fails, Bool.and_eq_true, decide_eq_true_iff, beq_iff_eq, Nat.dvd_iff_mod_eq_zero]
  refine ⟨fun h => h.2, fun h => ⟨Nat.pos_of_ne_zero fun hzero => ?_, h⟩⟩
  rw [hzero, Nat.mod_zero] at h
  cases h

/-- After an odd step the worker's call ends. -/
theorem Books.close (h : e.Books rounds steps p) (hi : i < e.workload.workers)
    (hodd : steps i % 2 = 1) (place : Place) (call : Invocation) (workers : List Worker) :
    let fails := e.workload.fails (steps i / 2)
    let ending := if fails then Ending.failed else .succeeded
    e.Books rounds (Function.update steps i (steps i + 1)) {
      world := e.dispatcher.close place call ending p.world
      workers := workers
      succeeded := p.succeeded + (if fails then 0 else 1)
      failed := p.failed + (if fails then 1 else 0) } := by
  intro fails ending
  have hhalf : (steps i + 1) / 2 = steps i / 2 + 1 := by omega
  have hcounters := (e.dispatcher.closed_close place call p.world ending).counters
  have hupdated := e.dispatcher.updated_close place call p.world ending
  refine ⟨?_, ?_, ?_, fun t => ?_, ?_, fun _ => ?_⟩
  · have hended := sum_range_update steps (· / 2) hi hhalf
    have hone : (if fails then 0 else 1) + (if fails then 1 else 0) = 1 := by
      cases fails <;> rfl
    have hbefore := h.ended
    dsimp only at hended ⊢
    omega
  · have hfailed : (steps i + 1) / 2 / e.workload.failEvery = steps i / 2 / e.workload.failEvery +
        if fails then 1 else 0 := by
      rw [hhalf, Nat.succ_div]
      simp only [fails, fails_iff]
    have hsum := sum_range_update steps (· / 2 / e.workload.failEvery) hi hfailed
    rw [hsum, h.failed, Nat.add_assoc]
  · have hsame : (steps i + 1 + 1) / 2 = (steps i + 1) / 2 + 0 := by omega
    have hsum := sum_range_update steps (fun n => (n + 1) / 2) hi hsame
    have hsites : (e.dispatcher.close place call ending p.world).dispatch.siteCount =
        p.world.dispatch.siteCount := by
      unfold DispatchState.siteCount
      rw [e.dispatcher.known_close, e.dispatcher.known_close]
    rw [hsum, hsites, e.dispatcher.cache_close]
    exact h.asked
  · rw [e.dispatcher.known_close, h.known, exists_called_update hi]
    refine ⟨.inr, ?_⟩
    rintro (rfl | hcalled)
    · exact ⟨i, hi, rfl, by omega⟩
    · exact hcalled
  · rw [hcounters]
    cases hfail : fails with
    | true =>
      simp only [ending, hfail]
      exact h.counted.addCount _
    | false =>
      simp only [ending, hfail]
      exact h.counted
  · refine hupdated.size_pos ?_
    cases hfail : fails <;> simp [ending, hfail, Invocation.updatedSlots]

/-- After an even step a call begins, if one is left. -/
theorem Books.begin (h : e.Books rounds steps p) (hi : i < e.workload.workers)
    (heven : steps i % 2 = 0) {w : World Journal} (hbegun : CallBegun i p.world w)
    (workers : List Worker) :
    e.Books rounds (Function.update steps i (steps i + 1)) { p with world := w, workers } := by
  have hregistry := e.dispatcher.client.registry_congr hbegun.registries
  have hhalf : (steps i + 1) / 2 = steps i / 2 + 0 := by omega
  refine ⟨?_, ?_, ?_, fun t => ?_, ?_, ?_⟩
  · rw [sum_range_update steps (· / 2) hi hhalf]
    exact h.ended
  · rw [sum_range_update steps (· / 2 / e.workload.failEvery) hi (δ := 0) (by rw [hhalf]; rfl)]
    exact h.failed
  · have hone : (steps i + 1 + 1) / 2 = (steps i + 1) / 2 + 1 := by omega
    have hsum := sum_range_update steps (fun n => (n + 1) / 2) hi hone
    have hsites : w.dispatch.siteCount = p.world.dispatch.siteCount +
        if (p.world.dispatch.site? (callType i)).isSome then 0 else 1 :=
      siteCount_insert hbegun.known
    have hasked := hbegun.asked _ h.asked
    rw [hsum, hsites]
    generalize ∑ j ∈ range e.workload.workers, (steps j + 1) / 2 = begun at *
    generalize rounds * (e.workload.workers * e.workload.calls) = ended at *
    have htotal (known : Bool) (sites : Nat) :
        6 * (ended + (begun + 1)) + 2 * (sites + if known then 0 else 1) =
          6 * (ended + begun) + 2 * sites + ((if known then 0 else 2) + 6) := by
      cases known <;> simp <;> omega
    rw [htotal]
    exact hasked
  · rw [hbegun.known, h.known, exists_called_update hi]
  · rw [hregistry]
    exact h.counted
  · rw [hregistry]
    exact h.filled

theorem Books.congr (h : e.Books rounds steps p) {steps' : Nat → Nat}
    (hsteps : ∀ j < e.workload.workers, steps j = steps' j) : e.Books rounds steps' p := by
  have hsum (g : Nat → Nat) : ∑ j ∈ range e.workload.workers, g (steps' j) =
      ∑ j ∈ range e.workload.workers, g (steps j) :=
    sum_congr rfl fun j hj => by rw [hsteps j (mem_range.1 hj)]
  refine ⟨?_, ?_, ?_, fun t => ?_, h.counted, h.filled⟩
  · rw [hsum (· / 2)]
    exact h.ended
  · rw [hsum (· / 2 / e.workload.failEvery)]
    exact h.failed
  · rw [hsum fun n => (n + 1) / 2]
    exact h.asked
  · rw [h.known]
    refine exists_congr fun j => and_congr_right fun hj => ?_
    rw [hsteps j hj]

theorem Staffed.congr (h : e.Staffed steps p) {steps' : Nat → Nat}
    (hsteps : ∀ j < e.workload.workers, steps j = steps' j) : e.Staffed steps' p := by
  refine ⟨h.length, fun j worker hworker => ?_, fun j hj => ?_⟩
  · have hj : j < e.workload.workers := by
      rw [← h.length]
      exact (List.getElem?_eq_some_iff.1 hworker).1
    rw [← hsteps j hj]
    exact h.taken j worker hworker
  · rw [← hsteps j hj]
    exact h.le j hj

theorem Staffed.set (h : e.Staffed steps p) {worker : Worker}
    (hle : steps i + 1 ≤ 2 * e.workload.calls) (hworker : worker.HasTaken (steps i + 1))
    (w : World Journal) (succeeded failed : Nat) :
    e.Staffed (Function.update steps i (steps i + 1))
      ⟨w, p.workers.set i worker, succeeded, failed⟩ := by
  refine ⟨List.length_set.trans h.length, fun j other hother => ?_, fun j hj => ?_⟩
  · rw [List.getElem?_set] at hother
    by_cases hij : i = j
    · rw [if_pos hij] at hother
      split at hother
      · obtain rfl := Option.some.inj hother
        rw [← hij, Function.update_self]
        exact hworker
      · cases hother
    · rw [if_neg hij] at hother
      rw [Function.update_of_ne (Ne.symm hij)]
      exact h.taken j other hother
  · by_cases hji : j = i
    · rw [hji, Function.update_self]
      exact hle
    · rw [Function.update_of_ne hji]
      exact h.le j hj

/-- A turn takes a worker one step further, if calls are left to it. -/
def nextSteps (e : WorkloadEngine) (steps : Nat → Nat) (i : Nat) : Nat → Nat :=
  Function.update steps i (min (steps i + 1) (2 * e.workload.calls))

structure Turned (e : WorkloadEngine) (rounds : Nat) (steps : Nat → Nat) (p p' : Progress) :
    Prop where
  books : e.Books rounds steps p'
  staffed : e.Staffed steps p'
  history : p'.world.history = p.world.history

theorem Books.turn (h : e.Books rounds steps p) (hstaffed : e.Staffed steps p)
    (hoperations : e.workload.operations ≠ []) (i : Nat) :
    e.Turned rounds (e.nextSteps steps i) p (e.turn i p) := by
  unfold WorkloadEngine.turn nextSteps
  cases hworker : p.workers[i]? with
  | none =>
    have hi : e.workload.workers ≤ i := by
      rw [← hstaffed.length]
      exact List.getElem?_eq_none_iff.1 hworker
    have hothers : ∀ j < e.workload.workers, steps j =
        Function.update steps i (min (steps i + 1) (2 * e.workload.calls)) j := fun j hj =>
      (Function.update_of_ne (by omega) _ _).symm
    exact ⟨h.congr hothers, hstaffed.congr hothers, rfl⟩
  | some worker =>
    obtain ⟨hmade, hbusy⟩ := hstaffed.taken i worker hworker
    have hi : i < e.workload.workers := by
      rw [← hstaffed.length]
      exact (List.getElem?_eq_some_iff.1 hworker).1
    have hle := hstaffed.le i hi
    cases hcurrent : worker.current with
    | some call =>
      have hodd : steps i % 2 = 1 := hbusy.1 (by rw [hcurrent]; rfl)
      have hnext : min (steps i + 1) (2 * e.workload.calls) = steps i + 1 := by omega
      rw [hnext]
      dsimp only
      rw [hcurrent, hmade]
      exact ⟨h.close hi hodd _ _ _,
        hstaffed.set (by omega) ⟨by dsimp only; omega, by simp; omega⟩ _ _ _,
        e.dispatcher.history_close _ _ _ _⟩
    | none =>
      have heven : steps i % 2 = 0 := by
        have hnot : ¬steps i % 2 = 1 := fun hodd => by simpa [hcurrent] using hbusy.2 hodd
        omega
      dsimp only
      rw [hcurrent]
      dsimp only
      split
      · rename_i hleft
        have hnext : min (steps i + 1) (2 * e.workload.calls) = steps i + 1 := by omega
        obtain ⟨operation, hoperation⟩ : ∃ operation,
            e.workload.operation? i worker.made = some operation :=
          ⟨_, List.getElem?_eq_getElem (Nat.mod_lt _ (List.length_pos_iff.2 hoperations))⟩
        have hbegun := e.callBegun_beginCall i worker operation p.world
        rw [hnext, hoperation]
        exact ⟨h.begin hi heven hbegun _,
          hstaffed.set (by omega) ⟨by dsimp only; omega, by simp; omega⟩ _ _ _, hbegun.history⟩
      · rename_i hleft
        have hnext : min (steps i + 1) (2 * e.workload.calls) = steps i := by omega
        rw [hnext, Function.update_eq_self]
        exact ⟨h, hstaffed, rfl⟩

end WorkloadEngine
end CallMetrics
