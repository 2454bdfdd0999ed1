import CallMetrics.Metric.Registry
import CallMetrics.Proofs.Metric.Samples

/-! A registry as the log of its creations and updates. Reading clears what has expired, so what is
stored depends on the reads made before; what a read shows does not. Main statement: along every
sequence of operations in the order of time, each read shows what the log tells at its time. -/

namespace CallMetrics

/-- What is asked of a registry. The operations on one metric create it if it is not there. -/
inductive RegistryAct
  | createAverage (key : MetricKey)
  | createPoint (key : MetricKey)
  | createCounter (key : MetricKey)
  | updateAverage (key : MetricKey) (value : Int64)
  | updatePoint (key : MetricKey) (value : Int64)
  | addCount (key : MetricKey) (delta : Int64)
  | setCount (key : MetricKey) (value : Int64)
  | average (key : MetricKey)
  | averageFigure (key : MetricKey) (figure : Figure)
  | point (key : MetricKey)
  | pointValue (key : MetricKey)
  | counter (key : MetricKey)
  | counterValue (key : MetricKey)
  | readings
  | reading (key : MetricKey)

/-- What a read answers with: readings, or one figure. -/
inductive RegistryAnswer
  | none
  | rows (rows : List MetricReading)
  | figure (value : Int)
  deriving DecidableEq

namespace Registry

/-- Carries out an operation. -/
def step (now : Int64) : RegistryAct → Registry → RegistryAnswer × Registry
  | .createAverage key, r => (.none, r.ensureAverage key)
  | .createPoint key, r => (.none, r.ensurePoint key)
  | .createCounter key, r => (.none, (r.counter key).2)
  | .updateAverage key value, r => (.none, r.updateAverage key now value)
  | .updatePoint key value, r => (.none, r.updatePoint key now value)
  | .addCount key delta, r => (.none, r.addCount key delta)
  | .setCount key value, r => (.none, r.setCount key value)
  | .average key, r => let (a, r) := r.average key now; (.rows [a.reading key], r)
  | .averageFigure key figure, r => let (v, r) := r.askAverage key now figure; (.figure v, r)
  | .point key, r => let (p, r) := r.point key now; (.rows [p.reading key], r)
  | .pointValue key, r => let (v, r) := r.askPoint key now; (.figure v.toInt, r)
  | .counter key, r => let (c, r) := r.counter key; (.rows [c.reading key], r)
  | .counterValue key, r => let (v, r) := r.askCounter key; (.figure v.toInt, r)
  | .readings, r => let (rows, r) := r.readings now; (.rows rows, r)
  | .reading key, r => let (row, r) := r.reading? key now; (.rows row.toList, r)

def after (history : List (Int64 × RegistryAct)) (r : Registry) : Registry :=
  history.foldl (fun r e => (r.step e.1 e.2).2) r

/-- What a read shows of a registry as it stands. -/
def shown (r : Registry) : RegistryAct → RegistryAnswer
  | .average key => .rows [((r.averages.get? key.text).getD .new).reading key]
  | .averageFigure key figure =>
    .figure (figure.of (((r.averages.get? key.text).getD .new).reading key))
  | .point key => .rows [((r.points.get? key.text).getD .new).reading key]
  | .pointValue key => .figure ((r.points.get? key.text).getD .new).value.toInt
  | .counter key => .rows [((r.counters.get? key.text).getD .new).reading key]
  | .counterValue key => .figure ((r.counters.get? key.text).getD .new).value.toInt
  | .readings => .rows r.rows
  | .reading key =>
    .rows (((r.averages.get? key.text).map (Average.reading key)).or
      (((r.points.get? key.text).map (Point.reading key)).or
        ((r.counters.get? key.text).map (Counter.reading key)))).toList
  | _ => .none

/-- A read refreshes what it shows, which is as if it had refreshed all. -/
theorem step_fst (now : Int64) (act : RegistryAct) (r : Registry) :
    (r.step now act).1 = (r.refreshAll now).shown act := by
  have haverage (key : MetricKey) : (r.average key now).1 =
      (((r.refreshAll now).averages.get? key.text).getD .new) := by
    rw [average_fst, refreshAll, Dict.get?_map, Average.getD_map_refresh]
  have hpoint (key : MetricKey) : (r.point key now).1 =
      (((r.refreshAll now).points.get? key.text).getD .new) := by
    rw [point_fst, refreshAll, Dict.get?_map, Point.getD_map_refresh]
  cases act with
  | average key => simp only [step, shown, haverage]
  | averageFigure key figure => simp only [step, shown, askAverage_eq, haverage]
  | point key => simp only [step, shown, hpoint]
  | pointValue key => simp only [step, shown, askPoint_eq, hpoint]
  | counter key | counterValue key => simp only [step, shown, askCounter, counter_fst, refreshAll]
  | reading key =>
    simp only [step, shown, reading?_fst, refreshAll, Dict.get?_map, Option.map_map]
    rfl
  | _ => rfl

end Registry

/-- The metrics that were created, each with its updates from the first to the last. -/
structure MetricLog where
  averages : Dict (List Sample)
  points : Dict (List Sample)
  counters : Dict (List CountUpdate)

namespace MetricLog

def empty : MetricLog := ⟨∅, ∅, ∅⟩

/-- Puts updates behind those of a metric, which is created if it is not there. -/
def extend {α : Type} (updates : Dict (List α)) (key : MetricKey) (more : List α) :
    Dict (List α) :=
  updates.modify key.text fun before => before.getD [] ++ more

def step (now : Int64) : RegistryAct → MetricLog → MetricLog
  | .createAverage key, log | .average key, log | .averageFigure key _, log =>
    { log with averages := extend log.averages key [] }
  | .createPoint key, log | .point key, log | .pointValue key, log =>
    { log with points := extend log.points key [] }
  | .createCounter key, log | .counter key, log | .counterValue key, log =>
    { log with counters := extend log.counters key [] }
  | .updateAverage key value, log =>
    { log with averages := extend log.averages key [⟨now, value⟩] }
  | .updatePoint key value, log => { log with points := extend log.points key [⟨now, value⟩] }
  | .addCount key delta, log => { log with counters := extend log.counters key [.add delta] }
  | .setCount key value, log => { log with counters := extend log.counters key [.assign value] }
  | .readings, log | .reading _, log => log

def after (history : List (Int64 × RegistryAct)) (log : MetricLog) : MetricLog :=
  history.foldl (fun log e => log.step e.1 e.2) log

/-- No average has as many updates as there are words. -/
def Few (log : MetricLog) : Prop :=
  ∀ key samples, log.averages.get? key = some samples → samples.length < UInt64.size

section
variable (w : Window) (now : Int64)

/-- The row of an average: about its live samples, and zero without any. -/
def averageRow (key : MetricKey) (samples : List Sample) : MetricReading :=
  let a := Average.ofSamples w samples now
  ⟨key, .average, a.value, a.low, a.high, a.count⟩

def pointRow (key : MetricKey) (samples : List Sample) : MetricReading :=
  let p := Point.ofSamples w samples now
  ⟨key, .point, p.value, p.value, p.value, if p.value = 0 then 0 else 1⟩

def counterRow (key : MetricKey) (updates : List CountUpdate) : MetricReading :=
  let c := Counter.ofUpdates updates
  ⟨key, .counter, c.value, c.value, c.value, c.updates⟩

/-- What the creations and updates tell at a time, whatever was read before. -/
def shows (log : MetricLog) : RegistryAct → RegistryAnswer
  | .average key => .rows [averageRow w now key ((log.averages.get? key.text).getD [])]
  | .averageFigure key figure =>
    .figure (figure.of (averageRow w now key ((log.averages.get? key.text).getD [])))
  | .point key => .rows [pointRow w now key ((log.points.get? key.text).getD [])]
  | .pointValue key => .figure (pointRow w now key ((log.points.get? key.text).getD [])).value.toInt
  | .counter key => .rows [counterRow key ((log.counters.get? key.text).getD [])]
  | .counterValue key =>
    .figure (counterRow key ((log.counters.get? key.text).getD [])).value.toInt
  | .readings =>
    .rows ((log.averages.entries.map (fun e => averageRow w now ⟨e.1⟩ e.2) ++
      log.points.entries.map (fun e => pointRow w now ⟨e.1⟩ e.2) ++
      log.counters.entries.map (fun e => counterRow ⟨e.1⟩ e.2)).mergeSort Registry.rowLE)
  | .reading key =>
    .rows (((log.averages.get? key.text).map (averageRow w now key)).or
      (((log.points.get? key.text).map (pointRow w now key)).or
        ((log.counters.get? key.text).map (counterRow key)))).toList
  | _ => .none

end

/-- The registry in which every metric shows what its updates tell at the given time. -/
def registry (w : Window) (now : Int64) (log : MetricLog) : Registry where
  window := w
  averages := log.averages.map fun _ samples => .ofSamples w samples now
  points := log.points.map fun _ samples => .ofSamples w samples now
  counters := log.counters.map fun _ updates => .ofUpdates updates

/-- What was never created shows what was created and never updated. -/
theorem getD_map {α β : Type} (f : List α → β) (updates : Dict (List α)) (key : MetricKey) :
    ((updates.map fun _ => f).get? key.text).getD (f []) = f ((updates.get? key.text).getD []) := by
  rw [Dict.get?_map]
  cases updates.get? key.text <;> rfl

theorem shown_registry (w : Window) (now : Int64) (log : MetricLog) (act : RegistryAct) :
    (log.registry w now).shown act = log.shows w now act := by
  have haverage (key : MetricKey) : ((log.registry w now).averages.get? key.text).getD .new =
      Average.ofSamples w ((log.averages.get? key.text).getD []) now :=
    getD_map (fun samples => Average.ofSamples w samples now) log.averages key
  have hpoint (key : MetricKey) : ((log.registry w now).points.get? key.text).getD .new =
      Point.ofSamples w ((log.points.get? key.text).getD []) now :=
    getD_map (fun samples => Point.ofSamples w samples now) log.points key
  have hcounter (key : MetricKey) : ((log.registry w now).counters.get? key.text).getD .new =
      Counter.ofUpdates ((log.counters.get? key.text).getD []) :=
    getD_map Counter.ofUpdates log.counters key
  cases act with
  | average key | averageFigure key figure => simp only [Registry.shown, haverage]; rfl
  | point key | pointValue key => simp only [Registry.shown, hpoint]; rfl
  | counter key | counterValue key => simp only [Registry.shown, hcounter]; rfl
  | readings =>
    simp only [Registry.shown, Registry.rows, registry, Dict.map, List.map_map]
    rfl
  | reading key =>
    simp only [Registry.shown, registry, Dict.get?_map, Option.map_map]
    rfl
  | _ => rfl

/-- The operation only reads, and only what there is. -/
def has (log : MetricLog) : RegistryAct → Bool
  | .average key | .averageFigure key _ => log.averages.contains key.text
  | .point key | .pointValue key => log.points.contains key.text
  | .counter key | .counterValue key => log.counters.contains key.text
  | .readings | .reading _ => true
  | _ => false

/-- The registry is kept as the log tells from the given time on. -/
structure Keeps (w : Window) (time : Int64) (log : MetricLog) (r : Registry) : Prop where
  window : r.window = w
  averages : log.averages.Matches
    (fun samples a => Tells (Average.refresh w) (Average.ofSamples w samples) time a) r.averages
  points : log.points.Matches
    (fun samples p => Tells (Point.refresh w) (Point.ofSamples w samples) time p) r.points
  counters : log.counters.Matches (fun updates c => c = Counter.ofUpdates updates) r.counters

variable {w : Window} {time now : Int64} {log : MetricLog} {r : Registry}

theorem Keeps.empty (w : Window) (time : Int64) : Keeps w time .empty (.empty w) :=
  ⟨rfl, .empty, .empty, .empty⟩

theorem Keeps.later (h : Keeps w time log r) (hle : time ≤ now) : Keeps w now log r :=
  ⟨h.window, h.averages.mono fun _ _ ht => ht.later hle, h.points.mono fun _ _ ht => ht.later hle,
    h.counters⟩

/-- What was never created reads as what was created and never updated. -/
theorem rel_getD {α β : Type} {R : List α → β → Prop} {updates : Option (List α)} {stored : Option β}
    {new : β} (h : Option.Rel R updates stored) (hnew : R [] new) :
    R (updates.getD []) (stored.getD new) := by
  cases h with
  | some h => exact h
  | none => exact hnew

theorem matches_extend {α β : Type} {R : List α → β → Prop} {updates : Dict (List α)}
    {stored : Dict β} {new : β} (h : updates.Matches R stored) (hnew : R [] new) (key : MetricKey)
    {more : List α} {f : β → β}
    (hf : ∀ b, R ((updates.get? key.text).getD []) b →
      R ((updates.get? key.text).getD [] ++ more) (f b)) :
    (extend updates key more).Matches R (stored.modify key.text fun b => f (b.getD new)) :=
  h.insert key.text (hf _ (rel_getD (h key.text) hnew))

theorem Few.room {key : MetricKey} {value : Int64}
    (h : (log.step now (.updateAverage key value)).Few) :
    ((log.averages.get? key.text).getD []).length < UInt64.size := by
  have hget : (log.step now (.updateAverage key value)).averages.get? key.text =
      some ((log.averages.get? key.text).getD [] ++ [⟨now, value⟩]) := by
    simp [step, extend, Dict.modify]
  have hupdated := h key.text _ hget
  rw [List.length_append] at hupdated
  exact Nat.lt_of_le_of_lt (Nat.le_add_right _ _) hupdated

theorem extend_nil {α : Type} {updates : Dict (List α)} {key : MetricKey}
    (h : updates.contains key.text = true) : extend updates key [] = updates := by
  obtain ⟨before, hbefore⟩ := Option.isSome_iff_exists.1 h
  rw [extend, Dict.modify, List.append_nil, hbefore]
  exact Dict.insert_get? hbefore

/-- To read what there is leaves no trace in the log. -/
theorem step_of_has (act : RegistryAct) (h : log.has act = true) : log.step now act = log := by
  cases act with
  | average key | averageFigure key figure => simp only [step, extend_nil h]
  | point key | pointValue key => simp only [step, extend_nil h]
  | counter key | counterValue key => simp only [step, extend_nil h]
  | readings | reading key => rfl
  | _ => cases h

theorem Keeps.average (hw : 0 ≤ w.millis.toInt) (h : Keeps w now log r) (key : MetricKey) :
    Keeps w now (log.step now (.average key)) (r.average key now).2 := by
  obtain rfl := h.window
  exact { h with
    averages := matches_extend h.averages (Average.tells_new now) key fun a ha => by
      simpa using ha.refreshed fun later hle => Average.refresh_refresh hw hle a }

theorem Keeps.point (hw : 0 ≤ w.millis.toInt) (h : Keeps w now log r) (key : MetricKey) :
    Keeps w now (log.step now (.point key)) (r.point key now).2 := by
  obtain rfl := h.window
  exact { h with
    points := matches_extend h.points (Point.tells_new now) key fun p hp => by
      simpa using hp.refreshed fun later hle => Point.refresh_refresh hw hle p }

theorem Keeps.refreshAll (hw : 0 ≤ w.millis.toInt) (h : Keeps w now log r) :
    Keeps w now log (r.refreshAll now) := by
  obtain rfl := h.window
  exact { h with
    averages := h.averages.map_right fun _ _ a ha =>
      ha.refreshed fun later hle => Average.refresh_refresh hw hle a
    points := h.points.map_right fun _ _ p hp =>
      hp.refreshed fun later hle => Point.refresh_refresh hw hle p }

theorem Keeps.reading (hw : 0 ≤ w.millis.toInt) (h : Keeps w now log r) (key : MetricKey) :
    Keeps w now log (r.reading? key now).2 := by
  have haverages := h.averages.contains key.text
  have hpoints := h.points.contains key.text
  rw [Registry.reading?]
  -- Only a metric that there is is refreshed, and refreshing it leaves the log as it is.
  split
  · rename_i hcontains
    have hread := h.average hw key
    rwa [step_of_has (.average key) (haverages.trans hcontains)] at hread
  · split
    · rename_i hcontains
      have hread := h.point hw key
      rwa [step_of_has (.point key) (hpoints.trans hcontains)] at hread
    · exact h

theorem Keeps.step (hw : 0 ≤ w.millis.toInt) (h : Keeps w time log r) (hle : time ≤ now)
    (act : RegistryAct) (hfew : (log.step now act).Few) :
    Keeps w now (log.step now act) (r.step now act).2 := by
  have h := h.later hle
  obtain rfl := h.window
  have hnewAverage := Average.tells_new (w := r.window) now
  have hnewPoint := Point.tells_new (w := r.window) now
  cases act with
  | createAverage key =>
    exact { h with
      averages := matches_extend h.averages hnewAverage key fun a ha => by simpa using ha }
  | createPoint key =>
    exact { h with
      points := matches_extend h.points hnewPoint key fun p hp => by simpa using hp }
  | createCounter key | counter key | counterValue key =>
    exact { h with counters := matches_extend h.counters rfl key fun c hc => by simpa using hc }
  | updateAverage key value =>
    exact { h with
      averages := matches_extend h.averages hnewAverage key fun a ha =>
        Average.tells_update hw ha hfew.room value }
  | updatePoint key value =>
    exact { h with
      points := matches_extend h.points hnewPoint key fun p _ =>
        Point.tells_update hw now value _ p }
  | addCount key delta =>
    exact { h with
      counters := matches_extend h.counters rfl key fun c hc =>
        hc ▸ Counter.add_ofUpdates _ delta }
  | setCount key value =>
    exact { h with
      counters := matches_extend h.counters rfl key fun c hc =>
        hc ▸ Counter.assign_ofUpdates _ value }
  | average key => exact h.average hw key
  | averageFigure key figure =>
    rw [Registry.step, Registry.askAverage_eq]
    exact h.average hw key
  | point key => exact h.point hw key
  | pointValue key =>
    rw [Registry.step, Registry.askPoint_eq]
    exact h.point hw key
  | readings => exact h.refreshAll hw
  | reading key => exact h.reading hw key

theorem Keeps.refreshAll_eq (h : Keeps w now log r) : r.refreshAll now = log.registry w now := by
  obtain rfl := h.window
  have haverages := Dict.Matches.eq (h.averages.map (S := Eq)
    (f := fun _ samples => Average.ofSamples r.window samples now)
    (g := fun _ => Average.refresh r.window now) fun _ _ _ ha => (ha now (Int64.le_refl now)).symm)
  have hpoints := Dict.Matches.eq (h.points.map (S := Eq)
    (f := fun _ samples => Point.ofSamples r.window samples now)
    (g := fun _ => Point.refresh r.window now) fun _ _ _ hp => (hp now (Int64.le_refl now)).symm)
  have hcounters := Dict.Matches.eq (h.counters.map (S := Eq)
    (f := fun _ => Counter.ofUpdates) (g := fun _ c => c) fun _ _ _ hc => hc.symm)
  rw [registry, haverages, hpoints, hcounters, Dict.map_id]
  rfl

theorem extend_le {α : Type} {updates : Dict (List α)} {key : MetricKey} {k : String}
    {before more : List α} (h : updates.get? k = some before) :
    ∃ after, (extend updates key more).get? k = some after ∧ before.length ≤ after.length := by
  rw [extend, Dict.modify, Dict.get?_insert]
  split
  · rename_i hk
    refine ⟨_, rfl, ?_⟩
    rw [← hk, h, Option.getD_some, List.length_append]
    exact Nat.le_add_right _ _
  · exact ⟨before, h, Nat.le_refl _⟩

theorem Few.of_step {act : RegistryAct} (h : (log.step now act).Few) : log.Few := by
  intro k before hbefore
  obtain ⟨after, hafter, hle⟩ : ∃ after, (log.step now act).averages.get? k = some after ∧
      before.length ≤ after.length := by
    cases act with
    | createAverage key | average key | averageFigure key figure | updateAverage key value =>
      exact extend_le hbefore
    | _ => exact ⟨before, hbefore, Nat.le_refl _⟩
  exact Nat.lt_of_le_of_lt hle (h k after hafter)

theorem Few.of_after {history : List (Int64 × RegistryAct)} (h : (log.after history).Few) :
    log.Few := by
  induction history generalizing log with
  | nil => exact h
  | cons e rest ih => exact (ih h).of_step

theorem Keeps.after (hw : 0 ≤ w.millis.toInt) {history : List (Int64 × RegistryAct)}
    (h : Keeps w time log r) (htimes : (time :: history.map (·.1) ++ [now]).Pairwise (· ≤ ·))
    (hfew : (log.after history).Few) : Keeps w now (log.after history) (r.after history) := by
  -- `Keeps` holds from the time of the last operation on, which moves along with the history.
  induction history generalizing time log r with
  | nil => exact h.later (by simpa using htimes)
  | cons e rest ih =>
    obtain ⟨hfirst, htimes⟩ := List.pairwise_cons.1 htimes
    have hle : time ≤ e.1 := hfirst e.1 (by simp)
    exact ih (h.step hw hle e.2 (Few.of_after hfew)) htimes hfew

end MetricLog

/-- Whatever was read before, a read shows what the creations and updates tell at its time, where the
window is as long as was asked for or as a word can be, and an average has as live samples the longest
steady end of its updates; and to read what there is adds nothing to what is told later. -/
theorem registry_shows_log (millis : UInt64) (history : List (Int64 × RegistryAct)) (now : Int64)
    (act : RegistryAct) (htimes : (history.map (·.1) ++ [now]).Pairwise (· ≤ ·))
    (hfew : (MetricLog.empty.after history).Few) :
    (((Registry.empty (.ofMillis millis)).after history).step now act).1 =
        (MetricLog.empty.after history).shows (.ofMillis millis) now act ∧
      (Window.ofMillis millis).millis.toInt =
        (if (millis.toNat : Int) ≤ Int64.maxValue.toInt then (millis.toNat : Int)
        else Int64.maxValue.toInt) ∧
      (∀ samples, (Window.ofMillis millis).LongestSteady samples
        ((Window.ofMillis millis).live samples)) ∧
      ((MetricLog.empty.after history).has act = true →
        MetricLog.empty.after (history ++ [(now, act)]) = MetricLog.empty.after history) := by
  have hearly : ∀ t ∈ history.map (·.1) ++ [now], Int64.minValue ≤ t := fun t _ =>
    Int64.minValue_le t
  have hkeeps := (MetricLog.Keeps.empty (.ofMillis millis) Int64.minValue).after
    (Window.ofMillis_nonneg millis) (List.pairwise_cons.2 ⟨hearly, htimes⟩) hfew
  refine ⟨?_, Window.toInt_ofMillis millis, Window.longestSteady_live, fun hhas => ?_⟩
  · rw [Registry.step_fst, hkeeps.refreshAll_eq, MetricLog.shown_registry]
  · rw [MetricLog.after, List.foldl_append]
    exact MetricLog.step_of_has act hhas

/-- An average that was asked and read, and cleared, between its first update and its last two. -/
def clearedHistory : List (Int64 × RegistryAct) :=
  [(3, .updateAverage ⟨"a"⟩ 5), (4, .averageFigure ⟨"a"⟩ .high), (20, .averageFigure ⟨"a"⟩ .value),
    (20, .readings), (21, .updateAverage ⟨"a"⟩ 7), (25, .updateAverage ⟨"a"⟩ (-10))]

theorem clearedHistory_sorted : (clearedHistory.map Prod.fst ++ [27]).Pairwise (· ≤ ·) := by decide

theorem few_cleared : (MetricLog.empty.after clearedHistory).Few := by
  intro key samples h
  have hmem := Dict.get?_eq_some_iff.1 h
  have hentries : (MetricLog.empty.after clearedHistory).averages.entries =
      [("a", [⟨3, 5⟩, ⟨21, 7⟩, ⟨25, -10⟩])] := by rfl
  rw [hentries, List.mem_singleton] at hmem
  obtain ⟨-, rfl⟩ := Prod.ext_iff.1 hmem
  decide

theorem registry_shows_log_cleared :
    (clearedHistory.map Prod.fst ++ [27]).Pairwise (· ≤ ·) ∧
      (MetricLog.empty.after clearedHistory).Few ∧
      (((Registry.empty (.ofMillis 10)).after clearedHistory).step 27 (.average ⟨"a"⟩)).1 =
        .rows [⟨⟨"a"⟩, .average, -1, -10, 7, 2⟩] ∧
      (((Registry.empty (.ofMillis 10)).after clearedHistory).step 27
        (.averageFigure ⟨"a"⟩ .low)).1 = .figure (-10) :=
  ⟨clearedHistory_sorted, few_cleared,
    (registry_shows_log 10 clearedHistory 27 (.average ⟨"a"⟩) clearedHistory_sorted
      few_cleared).1.trans (by decide),
    (registry_shows_log 10 clearedHistory 27 (.averageFigure ⟨"a"⟩ .low) clearedHistory_sorted
      few_cleared).1.trans (by decide)⟩

end CallMetrics
