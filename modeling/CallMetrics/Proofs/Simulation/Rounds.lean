import CallMetrics.Proofs.Metric.Snapshots
import CallMetrics.Proofs.Simulation.Turns

/-! The rounds of a workload. Every schedule gives each worker the turns for all of its calls, so a
round ends with the same totals whatever the schedule is (`foldl_nextSteps_turns`,
`Books.nextRound`), and its table of readings becomes a snapshot (`closeRound_done`). -/

namespace CallMetrics
open Finset
variable {σ : Type}

/-- What the coming and going of workers leaves as it is. -/
structure World.Beside (w w' : World σ) : Prop where
  dispatch : w'.dispatch = w.dispatch
  registries : w'.registries = w.registries
  history : w'.history = w.history
  clock : w'.clock = w.clock

namespace World

theorem Beside.refl (w : World σ) : w.Beside w := ⟨rfl, rfl, rfl, rfl⟩

theorem Beside.trans {a b c : World σ} (h : a.Beside b) (h' : b.Beside c) : a.Beside c :=
  ⟨h'.dispatch.trans h.dispatch, h'.registries.trans h.registries, h'.history.trans h.history,
    h'.clock.trans h.clock⟩

end World

namespace WorkloadEngine
variable (e : WorkloadEngine)

theorem beside_enter (index : Nat) (w : World Journal) : w.Beside (enter index w).2 := by
  unfold enter
  dsimp only
  split <;> exact ⟨rfl, rfl, rfl, rfl⟩

theorem hasTaken_enter (index : Nat) (w : World Journal) : (enter index w).1.HasTaken 0 := by
  unfold enter
  dsimp only
  split <;> exact ⟨rfl, by simp⟩

theorem beside_leave (worker : Worker) (w : World Journal) : w.Beside (leave worker w) := by
  unfold leave
  split <;> exact ⟨rfl, rfl, rfl, rfl⟩

theorem beside_enterAll (indices : List Nat) (w : World Journal) :
    w.Beside (enterAll indices w).2 := by
  induction indices generalizing w with
  | nil => exact .refl w
  | cons index rest ih => exact (beside_enter index w).trans (ih _)

theorem length_enterAll (indices : List Nat) (w : World Journal) :
    (enterAll indices w).1.length = indices.length := by
  induction indices generalizing w with
  | nil => rfl
  | cons index rest ih => exact congrArg (· + 1) (ih _)

theorem hasTaken_enterAll (indices : List Nat) (w : World Journal) :
    ∀ worker ∈ (enterAll indices w).1, worker.HasTaken 0 := by
  induction indices generalizing w with
  | nil => simp [enterAll]
  | cons index rest ih =>
    intro worker hworker
    rcases List.mem_cons.1 hworker with rfl | hworker
    · exact hasTaken_enter index w
    · exact ih _ worker hworker

/-- The world of a round when its workers have left. -/
def closing (p : Progress) : World Journal :=
  p.workers.foldl (fun w worker => leave worker w) p.world

/-- The table of readings that a round ends with. -/
def table (p : Progress) : List MetricReading := (e.dispatcher.client.readings (closing p)).1

theorem beside_closing (p : Progress) : p.world.Beside (closing p) := by
  unfold closing
  generalize p.world = w
  induction p.workers generalizing w with
  | nil => exact .refl w
  | cons worker rest ih => exact (beside_leave worker w).trans (ih _)

variable {e} {rounds : Nat} {steps : Nat → Nat} {p : Progress}

theorem Books.elsewhere (h : e.Books rounds steps p) {p' : Progress}
    (hsucceeded : p'.succeeded = p.succeeded) (hfailed : p'.failed = p.failed)
    (hdispatch : p'.world.dispatch = p.world.dispatch)
    (hcounters : (e.dispatcher.client.registry p'.world).counters =
      (e.dispatcher.client.registry p.world).counters)
    (hsize : (e.dispatcher.client.registry p'.world).size =
      (e.dispatcher.client.registry p.world).size) : e.Books rounds steps p' := by
  refine ⟨?_, ?_, ?_, fun t => ?_, ?_, ?_⟩
  · rw [hsucceeded, hfailed]
    exact h.ended
  · rw [hfailed]
    exact h.failed
  · rw [hdispatch]
    exact h.asked
  · rw [hdispatch]
    exact h.known t
  · rw [hfailed, hcounters]
    exact h.counted
  · rw [hsucceeded, hfailed, hsize]
    exact h.filled

theorem Books.openRound (h : e.Books rounds (fun _ => 0) p) :
    e.Turned rounds (fun _ => 0) p (e.openRound p) := by
  have hbeside := beside_enterAll (List.range e.workload.workers) p.world
  have hregistry := e.dispatcher.client.registry_congr hbeside.registries
  refine ⟨h.elsewhere rfl rfl hbeside.dispatch (congrArg _ hregistry) (congrArg _ hregistry),
    ⟨?_, fun i worker hworker => ?_, fun _ _ => Nat.zero_le _⟩, hbeside.history⟩
  · exact (length_enterAll _ _).trans List.length_range
  · exact hasTaken_enterAll _ _ worker (List.mem_of_getElem? hworker)

/-- At the end of a round all its calls have ended. -/
theorem Books.nextRound (h : e.Books rounds steps p) (hcalls : 0 < e.workload.calls)
    (hsteps : ∀ j < e.workload.workers, steps j = 2 * e.workload.calls) :
    e.Books (rounds + 1) (fun _ => 0) p := by
  have hsum (g : Nat → Nat) : ∑ j ∈ range e.workload.workers, g (steps j) =
      e.workload.workers * g (2 * e.workload.calls) := by
    rw [sum_const_nat fun j hj => congrArg g (hsteps j (mem_range.1 hj)), card_range]
  have hhalf : 2 * e.workload.calls / 2 = e.workload.calls := by omega
  have hhalf' : (2 * e.workload.calls + 1) / 2 = e.workload.calls := by omega
  have hended := h.ended
  have hfailed := h.failed
  have hasked := h.asked
  rw [hsum (· / 2)] at hended
  rw [hsum (· / 2 / e.workload.failEvery)] at hfailed
  rw [hsum fun n => (n + 1) / 2] at hasked
  rw [hhalf] at hended hfailed
  rw [hhalf'] at hasked
  refine ⟨?_, ?_, ?_, fun t => ?_, h.counted, h.filled⟩
  · simpa [Nat.succ_mul] using hended
  · simpa [Nat.succ_mul] using hfailed
  · simpa [Nat.succ_mul] using hasked
  · rw [h.known]
    refine exists_congr fun j => and_congr_right fun hj => and_congr_right fun _ => ?_
    rw [hsteps j hj]
    omega

/-- The totals between two rounds. -/
theorem Books.totals (h : e.Books rounds (fun _ => 0) p) :
    p.succeeded + p.failed = e.workload.workers * e.workload.calls * rounds ∧
      p.failed = e.workload.workers * rounds * (e.workload.calls / e.workload.failEvery) ∧
      p.world.dispatch.cache.Asked (6 * (e.workload.workers * e.workload.calls * rounds) +
        2 * p.world.dispatch.siteCount) := by
  refine ⟨?_, ?_, ?_⟩
  · simpa [Nat.mul_comm rounds] using h.ended
  · simpa [Nat.mul_left_comm rounds, Nat.mul_assoc] using h.failed
  · simpa [Nat.mul_comm rounds] using h.asked

theorem Books.siteCount_eq (h : e.Books rounds (fun _ => 0) p) (hrounds : 0 < rounds) :
    p.world.dispatch.siteCount = min e.workload.workers 2 := by
  have hknown (t : CallType) : (p.world.dispatch.site? t).isSome ↔
      ∃ j < e.workload.workers, callType j = t := by
    rw [h.known]
    refine exists_congr fun j => and_congr_right fun _ => ?_
    exact and_iff_left (Nat.add_pos_left hrounds _)
  have hrpc : (p.world.dispatch.site? .rpc).isSome ↔ 0 < e.workload.workers := by
    rw [hknown]
    refine ⟨?_, fun hpos => ⟨0, hpos, rfl⟩⟩
    rintro ⟨j, hj, -⟩
    exact Nat.zero_lt_of_lt hj
  have hget : (p.world.dispatch.site? .get).isSome ↔ 1 < e.workload.workers := by
    rw [hknown]
    refine ⟨?_, fun hone => ⟨1, hone, rfl⟩⟩
    rintro ⟨j, hj, htype⟩
    -- The first worker makes plain calls.
    have hne : j ≠ 0 := by
      rintro rfl
      exact rpc_ne_get htype
    omega
  unfold DispatchState.siteCount
  simp only [hrpc, hget]
  split <;> split <;> omega

theorem foldl_nextSteps (turns : List Nat) {j : Nat} (hle : steps j ≤ 2 * e.workload.calls) :
    turns.foldl e.nextSteps steps j = min (steps j + turns.count j) (2 * e.workload.calls) := by
  induction turns generalizing steps with
  | nil => exact (Nat.min_eq_left hle).symm
  | cons i rest ih =>
    rw [List.foldl_cons]
    by_cases hij : i = j
    · have hnext : e.nextSteps steps i j = min (steps j + 1) (2 * e.workload.calls) := by
        rw [nextSteps, hij, Function.update_self]
      rw [ih (by omega), hnext, hij, List.count_cons_self]
      omega
    · have hnext : e.nextSteps steps i j = steps j := Function.update_of_ne (Ne.symm hij) _ _
      rw [ih (by omega), hnext, List.count_cons_of_ne hij]

/-- The turns of a round are enough for every worker, whatever the schedule is. -/
theorem foldl_nextSteps_turns (schedule : List Nat) {j : Nat} (hj : j < e.workload.workers) :
    (e.turns schedule).foldl e.nextSteps (fun _ => 0) j = 2 * e.workload.calls := by
  have hall : List.replicate (2 * e.workload.calls) j ∈
      (List.range e.workload.workers).map (List.replicate (2 * e.workload.calls)) :=
    List.mem_map.2 ⟨j, List.mem_range.2 hj, rfl⟩
  have hsub : (List.replicate (2 * e.workload.calls) j).Sublist (e.turns schedule) := by
    refine .trans ?_ (List.sublist_append_right _ _)
    rw [List.flatMap_def]
    exact List.sublist_flatten_of_mem hall
  have hcount := List.replicate_sublist_iff.1 hsub
  rw [foldl_nextSteps _ (Nat.zero_le _)]
  omega

/-- A history that keeps the tables of rounds, with room for the keys of those that are left. -/
structure Filed (size left : Nat) (tables : List (List MetricReading))
    (h : History MetricReading) : Prop where
  keeps : h.Keeps tables
  capacity : h.capacity = size
  room : h.last = .minValue ∨ h.last.toInt + left < 2 ^ 63
  filled : ∀ t ∈ tables, t ≠ []

theorem Filed.push {size left : Nat} {tables : List (List MetricReading)}
    {h : History MetricReading} (hfiled : Filed size (left + 1) tables h) {now : Int64}
    (hnow : now.toInt + (left + 1) < 2 ^ 63) {t : List MetricReading} (ht : t ≠ []) :
    Filed size left (tables ++ [t]) (h.push now t).2 := by
  have hmin : Int64.minValue.toInt = -2 ^ 63 := Int64.toInt_minValue
  have hle := now.le_toInt
  have hroom : h.last.toInt = -2 ^ 63 ∨ h.last.toInt + left + 1 < 2 ^ 63 := by
    rcases hfiled.room with hlast | hlast
    · exact .inl (by rw [hlast, hmin])
    · exact .inr (by omega)
  obtain ⟨hkeeps, hcapacity, hlast⟩ := hfiled.keeps.push (by omega) now t
  refine ⟨hkeeps, hcapacity.trans hfiled.capacity, .inr (by omega), fun t' ht' => ?_⟩
  rcases List.mem_append.1 ht' with ht' | ht'
  · exact hfiled.filled t' ht'
  · rw [List.mem_singleton.1 ht']
    exact ht

/-- What holds after some rounds. -/
structure RoundsDone (e : WorkloadEngine) (size rounds left : Nat)
    (tables : List (List MetricReading)) (p : Progress) : Prop where
  books : e.Books rounds (fun _ => 0) p
  filed : Filed size left tables p.world.history
  length : tables.length = rounds

theorem closeRound_eq (round : Nat) (hkind : p.world.history.kind = .numeric) :
    e.closeRound round p =
      { p with
        world := { (e.dispatcher.client.readings (closing p)).2 with
          history := (p.world.history.push p.world.clock.wall (e.table p)).2 }
        workers := [] } := by
  have hbeside := beside_closing p
  have hhistory : (e.dispatcher.client.readings (closing p)).2.history = p.world.history :=
    hbeside.history
  have hclock : (e.dispatcher.client.readings (closing p)).2.clock = p.world.clock := hbeside.clock
  have hclosing : p.workers.foldl (fun w worker => leave worker w) p.world = closing p := rfl
  unfold WorkloadEngine.closeRound table
  simp only [hclosing, hhistory, hclock, History.push_numeric hkind]

theorem closeRound_done {size left : Nat} {tables : List (List MetricReading)}
    (hbooks : e.Books (rounds + 1) (fun _ => 0) p)
    (hfiled : Filed size (left + 1) tables p.world.history)
    (hlength : tables.length = rounds) (hpos : 0 < e.workload.workers * e.workload.calls)
    (hclock : p.world.clock.wall.toInt + (left + 1) < 2 ^ 63) (round : Nat) :
    e.RoundsDone size (rounds + 1) left (tables ++ [e.table p]) (e.closeRound round p) := by
  have hbeside := beside_closing p
  have hregistry := e.dispatcher.client.registry_congr hbeside.registries
  have hended : 0 < p.succeeded + p.failed := by
    rw [hbooks.ended, Nat.succ_mul]
    omega
  have htable : e.table p ≠ [] := by
    refine Registry.readings_ne_nil ?_ _
    rw [hregistry]
    exact hbooks.filled hended
  have hread : e.dispatcher.client.registry (e.dispatcher.client.readings (closing p)).2 =
      (e.dispatcher.client.registry p.world).refreshAll (closing p).clock.wall := by
    rw [← hregistry]
    exact Client.registry_onRegistry _ (·.refreshAll (closing p).clock.wall) (closing p)
  have hcounters := congrArg Registry.counters hread
  have hsize := (congrArg Registry.size hread).trans (Registry.size_refreshAll _ _)
  have hlengths : (tables ++ [e.table p]).length = rounds + 1 := by
    rw [List.length_append, hlength, List.length_singleton]
  rw [closeRound_eq round hfiled.keeps.kind]
  exact ⟨hbooks.elsewhere rfl rfl hbeside.dispatch hcounters hsize, hfiled.push hclock htable,
    hlengths⟩

end WorkloadEngine
end CallMetrics
