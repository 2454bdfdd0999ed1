import CallMetrics.CommandLine.Respond
import CallMetrics.Proofs.Simulation.Rounds

/-! What a simulated workload reports. Its events come round by round, each with the clocks as they
are then (`roundsDone_rounds`); the report follows from the totals and the history after the last
round (`report_accounts_for_calls`). -/

namespace CallMetrics

theorem ValidConfig.historySize_pos (c : ValidConfig) : 0 < c.config.historySize.toNat := by
  have hrange : rangeFault? .historySize c.config.historySize.toNat 1 10000 = none :=
    Config.fault?_eq_none_iff.1 c.accepted _ (by simp [Config.faults])
  unfold rangeFault? at hrange
  split at hrange
  · cases hrange
  · omega

namespace Simulation
open WorkloadEngine
variable (s : Simulation)

def clocked (now : Clock) (p : Progress) : Progress :=
  { p with world := p.world.onClock fun _ => now }

/-- Runs events, each with the clocks as they are then. -/
def runTimed (timed : List (Clock × WorkloadEvent)) (p : Progress) : Progress :=
  timed.foldl (fun p x => s.event x.1 p x.2) p

/-- A run while no time passes is one of these. -/
theorem runAt_eq_runTimed (now : Clock) :
    s.runAt now = s.runTimed (s.events.map fun e => (now, e)) (s.start now) := by
  rw [runTimed, List.foldl_map]
  rfl

/-- The tables of readings that rounds end with. -/
def tables : List (Clock × WorkloadEvent) → Progress → List (List MetricReading)
  | [], _ => []
  | (now, .closed round) :: rest, p =>
    s.engine.table (clocked now p) :: tables rest (s.event now p (.closed round))
  | (now, event) :: rest, p => tables rest (s.event now p event)

theorem runTimed_append (before after : List (Clock × WorkloadEvent)) (p : Progress) :
    s.runTimed (before ++ after) p = s.runTimed after (s.runTimed before p) :=
  List.foldl_append ..

theorem tables_append (before after : List (Clock × WorkloadEvent)) (p : Progress) :
    s.tables (before ++ after) p = s.tables before p ++ s.tables after (s.runTimed before p) := by
  induction before generalizing p with
  | nil => rfl
  | cons x rest ih =>
    obtain ⟨now, event⟩ := x
    cases event with
    | opened => exact ih _
    | turn worker => exact ih _
    | closed round => exact congrArg _ (ih _)

variable {s} {rounds : Nat} {steps : Nat → Nat} {p : Progress}

theorem turned_runTimed (hoperations : s.engine.workload.operations ≠ []) {turns : List Nat}
    {timed : List (Clock × WorkloadEvent)} (htimed : timed.map (·.2) = turns.map .turn)
    (hbooks : s.engine.Books rounds steps p) (hstaffed : s.engine.Staffed steps p) :
    s.engine.Turned rounds (turns.foldl s.engine.nextSteps steps) p (s.runTimed timed p) ∧
      s.tables timed p = [] := by
  induction timed generalizing turns steps p with
  | nil =>
    obtain rfl := List.map_eq_nil_iff.1 htimed.symm
    exact ⟨⟨hbooks, hstaffed, rfl⟩, rfl⟩
  | cons x rest ih =>
    obtain ⟨now, event⟩ := x
    cases turns with
    | nil => cases htimed
    | cons i turns =>
      obtain ⟨rfl, hrest⟩ := List.cons.inj htimed
      have hclocked : s.engine.Books rounds steps (clocked now p) :=
        hbooks.elsewhere rfl rfl rfl rfl rfl
      have hturned := hclocked.turn ⟨hstaffed.length, hstaffed.taken, hstaffed.le⟩ hoperations i
      obtain ⟨hrun, htables⟩ := ih hrest hturned.books hturned.staffed
      exact ⟨⟨hrun.books, hrun.staffed, hrun.history.trans hturned.history⟩, htables⟩

/-- A round ends with all its calls counted and with one more table. -/
theorem roundsDone_round (hoperations : s.engine.workload.operations ≠ [])
    (hpos : 0 < s.engine.workload.workers * s.engine.workload.calls) {size left : Nat}
    {tables : List (List MetricReading)} (h : s.engine.RoundsDone size rounds (left + 1) tables p)
    {schedule : List Nat} {round : Nat} {timed : List (Clock × WorkloadEvent)}
    (htimed : timed.map (·.2) = .opened :: (s.engine.turns schedule).map .turn ++ [.closed round])
    (hclock : ∀ x ∈ timed, x.1.wall.toInt + (left + 1) < 2 ^ 63) :
    s.engine.RoundsDone size (rounds + 1) left (tables ++ s.tables timed p)
      (s.runTimed timed p) := by
  obtain ⟨begun, last, rfl, hbegun, hlast⟩ := List.map_eq_append_iff.1 htimed
  obtain ⟨⟨start, _⟩, turns, rfl, rfl, hturns⟩ := List.map_eq_cons_iff.1 hbegun
  obtain ⟨⟨now, _⟩, rfl, rfl⟩ := List.map_eq_singleton_iff.1 hlast
  have hopened : s.engine.Turned rounds (fun _ => 0) (clocked start p) (s.event start p .opened) :=
    Books.openRound (h.books.elsewhere rfl rfl rfl rfl rfl)
  obtain ⟨hturned, htables⟩ :=
    turned_runTimed hoperations hturns hopened.books hopened.staffed
  have hbooks : s.engine.Books (rounds + 1) (fun _ => 0)
      (clocked now (s.runTimed turns (s.event start p .opened))) := by
    refine Books.nextRound (hturned.books.elsewhere rfl rfl rfl rfl rfl)
      (Nat.pos_of_mul_pos_left hpos) fun j hj => foldl_nextSteps_turns schedule hj
  have hhistory : (clocked now (s.runTimed turns (s.event start p .opened))).world.history =
      p.world.history := hturned.history.trans hopened.history
  have hdone := closeRound_done hbooks (hhistory ▸ h.filed) h.length hpos
    (hclock (now, .closed round) (by simp)) round
  have hnone : s.tables ((start, .opened) :: turns) p = [] := htables
  rw [tables_append, runTimed_append, hnone, List.nil_append]
  exact hdone

theorem roundsDone_rounds (hoperations : s.engine.workload.operations ≠ [])
    (hpos : 0 < s.engine.workload.workers * s.engine.workload.calls) (schedule : Nat → List Nat)
    (count : Nat) {size left : Nat} {timed : List (Clock × WorkloadEvent)}
    (h : s.engine.RoundsDone size 0 (count + left) [] p)
    (htimed : timed.map (·.2) = (List.range count).flatMap fun round =>
      .opened :: (s.engine.turns (schedule round)).map .turn ++ [.closed round])
    (hclock : ∀ x ∈ timed, x.1.wall.toInt + ((count + left : Nat) : Int) < 2 ^ 63) :
    s.engine.RoundsDone size count left (s.tables timed p) (s.runTimed timed p) := by
  induction count generalizing left timed with
  | zero =>
    obtain rfl := List.map_eq_nil_iff.1 htimed
    rw [Nat.zero_add] at h
    exact h
  | succ count ih =>
    rw [List.range_succ, List.flatMap_append, List.flatMap_singleton] at htimed
    obtain ⟨earlier, round, rfl, hearlier, hround⟩ := List.map_eq_append_iff.1 htimed
    have hleft : count + 1 + left = count + (left + 1) := by omega
    rw [hleft] at h hclock
    have hbefore := ih h hearlier fun x hx => hclock x (List.mem_append_left _ hx)
    rw [tables_append, runTimed_append]
    refine roundsDone_round hoperations hpos hbefore hround fun x hx => ?_
    have hx := hclock x (List.mem_append_right _ hx)
    omega

theorem roundsDone_start (left : Nat) (now : Clock)
    (hnumeric : s.config.config.historyKey = .numeric) :
    s.engine.RoundsDone s.config.config.historySize.toNat 0 left [] (s.start now) := by
  have hended : (s.start now).succeeded + (s.start now).failed = 0 := rfl
  have hfailed : (s.start now).failed = 0 := rfl
  have hasked : (s.start now).world.dispatch.cache.Asked 0 := JoinCache.asked_new _
  have hsites : (s.start now).world.dispatch.siteCount = 0 := rfl
  have hnone (t : CallType) : ((s.start now).world.dispatch.site? t).isSome = false := rfl
  refine ⟨⟨?_, ?_, ?_, fun t => ?_, .nil, ?_⟩, ⟨?_, ?_, .inl rfl, by simp⟩, rfl⟩
  · simp [hended]
  · simp [hfailed]
  · simpa [hsites] using hasked
  · simp [hnone]
  · simp [hended]
  · change (History.new s.config.config.historyKey _).Keeps []
    rw [hnumeric]
    exact History.keeps_new _
  · exact Nat.max_eq_left s.config.historySize_pos

end Simulation

theorem ne_nil_of_mapM {α β ε : Type} {f : α → Except ε β} {as : List α} {bs : List β}
    (has : as ≠ []) (h : as.mapM f = .ok bs) : bs ≠ [] := by
  cases as with
  | nil => exact absurd rfl has
  | cons a rest =>
    rw [List.mapM_cons] at h
    obtain ⟨b, -, h⟩ := bind_eq_ok_iff.1 h
    obtain ⟨others, -, h⟩ := bind_eq_ok_iff.1 h
    cases h
    exact List.cons_ne_nil b others

theorem readOperations_ne_nil {names : List String} {operations : List OperationName}
    (h : Workload.readOperations names = .ok operations) : operations ≠ [] := by
  refine ne_nil_of_mapM ?_ h
  cases names with
  | nil => decide
  | cons name rest => exact List.cons_ne_nil name rest

/-- The report of a simulated workload that has run, whatever the schedules of its rounds were and
however the time passed, as long as keys and counters are words. It counts all calls; of each
worker's calls every so many have failed in a round, as the rows of counters show; each call asked
the memo for six texts and the first of each type for two more, and the memo's hits and misses, which
are words, add up to that; and the history shows the tables of the last rounds in their order. -/
theorem report_accounts_for_calls (m : OutputMode) (o : SimulateOptions) (c : ValidConfig)
    (operations : List OperationName)
    (hoperations : Workload.readOperations o.operations = .ok operations)
    (hnumeric : c.config.historyKey = .numeric) (hworkers : 0 < o.workers) (hcalls : 0 < o.calls)
    (hrounds : 0 < o.rounds) (schedule : Nat → List Nat) (timed : List (Clock × WorkloadEvent))
    (htimed : timed.map (·.2) = (Respond.simulation m o c operations).engine.events schedule)
    (hclock : ∀ x ∈ timed, x.1.wall.toInt + o.rounds < 2 ^ 63)
    (hfailed : o.workers * o.rounds * (o.calls / o.failEvery) < 2 ^ 63) (begun ended : Clock) :
    let s := Respond.simulation m o c operations
    let report := s.engine.report (Simulation.clocked ended (s.runTimed timed (s.start begun)))
    let tables := s.tables timed (s.start begun)
    let asked := 6 * (o.workers * o.calls * o.rounds) + 2 * min o.workers 2
    report.calls = o.workers * o.calls * o.rounds ∧
      report.failed = o.workers * o.rounds * (o.calls / o.failEvery) ∧
      report.succeeded = report.calls - report.failed ∧
      ((report.readings.filter (·.family = .counter)).map (·.value.toInt)).sum = report.failed ∧
      report.cache.hits + report.cache.misses = .ofNat asked ∧
      (asked < UInt64.size → report.cache.hits.toNat + report.cache.misses.toNat = asked) ∧
      tables.length = o.rounds ∧ report.snapshots = min o.rounds c.config.historySize.toNat ∧
      ∃ kept : List (OrderKey × List MetricReading), kept.Pairwise (·.1.lt ·.1) ∧
        kept.map (·.2) = tables.drop (o.rounds - c.config.historySize.toNat) ∧
        report.history = kept.flatMap fun e => e.2.map fun row => (e.1, row) := by
  intro s report tables asked
  have hdone : s.engine.RoundsDone c.config.historySize.toNat o.rounds 0 tables
      (s.runTimed timed (s.start begun)) :=
    Simulation.roundsDone_rounds (readOperations_ne_nil hoperations) (Nat.mul_pos hworkers hcalls)
      schedule o.rounds (Simulation.roundsDone_start _ begun hnumeric) htimed hclock
  obtain ⟨hbooks, hfiled, hlength⟩ := hdone
  obtain ⟨hended, hreportFailed, hasked⟩ := hbooks.totals
  rw [hbooks.siteCount_eq hrounds] at hasked
  have hkept := hfiled.keeps.kept
  have hsize := hfiled.keeps.size
  rw [hlength, hfiled.capacity] at hkept hsize
  refine ⟨hended, hreportFailed, (Nat.add_sub_cancel _ _).symm, ?_, hasked.sum_eq, hasked.toNat_eq,
    hlength, ?_, (s.runTimed timed (s.start begun)).world.history.entries, hfiled.keeps.sorted, hkept,
    rfl⟩
  · exact Registry.sum_counter_rows hbooks.counted (hreportFailed.trans_lt hfailed) _
  · have hkeys := History.eraseReps_rows (h := (s.runTimed timed (s.start begun)).world.history)
      (hfiled.keeps.keys_ne) fun e he => ?_
    · refine (congrArg List.length hkeys).trans ?_
      exact (List.length_map _).trans hsize
    · have hmem : e.2 ∈ tables.drop (o.rounds - c.config.historySize.toNat) :=
        hkept ▸ List.mem_map_of_mem he
      exact hfiled.filled e.2 (List.mem_of_mem_drop hmem)

/-- Two workers with three calls each in two rounds, of which every second one fails. -/
def smallOptions : SimulateOptions := ⟨⟨none, none⟩, 2, 3, 2, 2, ["login"], .discarded⟩

def login : OperationName := ⟨"login", by decide +kernel⟩

def smallSimulation : Simulation :=
  Respond.simulation ⟨.text, false⟩ smallOptions .default [login]

def takingTurns (_ : Nat) : List Nat := [0, 1, 0, 1, 1, 0]

/-- The workers take turns, while no time passes. -/
def smallRun : List (Clock × WorkloadEvent) :=
  (smallSimulation.engine.events takingTurns).map fun e => (.started 7 0, e)

theorem report_accounts_for_small :
    let report := smallSimulation.engine.report (Simulation.clocked (.started 9 0)
      (smallSimulation.runTimed smallRun (smallSimulation.start (.started 5 0))))
    report.calls = 12 ∧ report.failed = 4 ∧
      report.cache.hits.toNat + report.cache.misses.toNat = 76 := by
  have hoperations : Workload.readOperations smallOptions.operations = .ok [login] := rfl
  have htimed : smallRun.map (·.2) = smallSimulation.engine.events takingTurns := by
    rw [smallRun, List.map_map]
    exact List.map_id _
  have hnow : (Clock.started 7 0).wall.toInt + ((2 : Nat) : Int) < 2 ^ 63 := by decide
  have hclock : ∀ x ∈ smallRun, x.1.wall.toInt + ((2 : Nat) : Int) < 2 ^ 63 := by
    intro x hx
    obtain ⟨e, -, rfl⟩ := List.mem_map.1 hx
    exact hnow
  obtain ⟨hcalls, hfailed, -, -, -, hasked, -⟩ :=
    report_accounts_for_calls ⟨.text, false⟩ smallOptions .default [login] hoperations rfl
      (by decide) (by decide) (by decide) takingTurns smallRun htimed hclock (by decide)
      (.started 5 0) (.started 9 0)
  have htotal : 6 * (2 * 3 * 2) + 2 * min 2 2 = 76 := by decide
  rw [smallSimulation]
  exact ⟨hcalls, hfailed, (hasked (by decide)).trans htotal⟩

end CallMetrics
