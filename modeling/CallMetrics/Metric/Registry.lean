import CallMetrics.Metric.Window

/-! The metrics of one client by family and name. A metric is created by its first update or read
in its family; the table of readings and the reading of a name create nothing. Reading is an
operation on the registry, since it clears what has expired. -/

namespace CallMetrics

structure Registry where
  window : Window
  averages : Dict Average
  points : Dict Point
  counters : Dict Counter

namespace Registry

def empty (window : Window) : Registry := ⟨window, ∅, ∅, ∅⟩

def onAverage (r : Registry) (key : MetricKey) (f : Average → Average) : Registry :=
  { r with averages := r.averages.modify key.text fun a => f (a.getD .new) }

def onPoint (r : Registry) (key : MetricKey) (f : Point → Point) : Registry :=
  { r with points := r.points.modify key.text fun p => f (p.getD .new) }

def onCounter (r : Registry) (key : MetricKey) (f : Counter → Counter) : Registry :=
  { r with counters := r.counters.modify key.text fun c => f (c.getD .new) }

def updateAverage (r : Registry) (key : MetricKey) (now v : Int64) : Registry :=
  r.onAverage key (Average.update r.window now v)

def updatePoint (r : Registry) (key : MetricKey) (now v : Int64) : Registry :=
  r.onPoint key (Point.update now v)

def addCount (r : Registry) (key : MetricKey) (delta : Int64) : Registry :=
  r.onCounter key (Counter.add delta)

def setCount (r : Registry) (key : MetricKey) (value : Int64) : Registry :=
  r.onCounter key (Counter.assign value)

/-- Creates the average under a key if there is none; one that there is keeps what it holds. -/
def ensureAverage (r : Registry) (key : MetricKey) : Registry := r.onAverage key id

def ensurePoint (r : Registry) (key : MetricKey) : Registry := r.onPoint key id

def average (r : Registry) (key : MetricKey) (now : Int64) : Average × Registry :=
  let r := r.onAverage key (Average.refresh r.window now)
  ((r.averages.get? key.text).getD .new, r)

def askAverage (r : Registry) (key : MetricKey) (now : Int64) (figure : Figure) : Int × Registry :=
  let stored := (r.averages.get? key.text).getD .new
  ((stored.ask r.window now figure).1, r.onAverage key fun a => (a.ask r.window now figure).2)

def point (r : Registry) (key : MetricKey) (now : Int64) : Point × Registry :=
  let r := r.onPoint key (Point.refresh r.window now)
  ((r.points.get? key.text).getD .new, r)

def askPoint (r : Registry) (key : MetricKey) (now : Int64) : Int64 × Registry :=
  let stored := (r.points.get? key.text).getD .new
  ((stored.ask r.window now).1, r.onPoint key fun p => (p.ask r.window now).2)

def counter (r : Registry) (key : MetricKey) : Counter × Registry :=
  let r := r.onCounter key id
  ((r.counters.get? key.text).getD .new, r)

def askCounter (r : Registry) (key : MetricKey) : Int64 × Registry :=
  let (c, r) := r.counter key
  (c.value, r)

@[simp] theorem average_fst (r : Registry) (key : MetricKey) (now : Int64) :
    (r.average key now).1 = ((r.averages.get? key.text).getD .new).refresh r.window now := by
  simp [average, onAverage, Dict.modify]

@[simp] theorem point_fst (r : Registry) (key : MetricKey) (now : Int64) :
    (r.point key now).1 = ((r.points.get? key.text).getD .new).refresh r.window now := by
  simp [point, onPoint, Dict.modify]

/-- A figure is that of the reading, and to ask for it does what a reading does. -/
theorem askAverage_eq (r : Registry) (key : MetricKey) (now : Int64) (figure : Figure) :
    r.askAverage key now figure =
      (figure.of ((r.average key now).1.reading key), (r.average key now).2) := by
  rw [average_fst, askAverage]
  simp only [Average.ask_eq r.window now key]
  rfl

theorem askPoint_eq (r : Registry) (key : MetricKey) (now : Int64) :
    r.askPoint key now = ((r.point key now).1.value, (r.point key now).2) := by
  rw [point_fst, askPoint]
  simp only [Point.ask_eq]
  rfl

@[simp] theorem counter_fst (r : Registry) (key : MetricKey) :
    (r.counter key).1 = (r.counters.get? key.text).getD .new := by
  simp [counter, onCounter, Dict.modify]

def size (r : Registry) : Nat := r.averages.size + r.points.size + r.counters.size

/-- Rows come by name, and those of one name by family. -/
def rowLE (a b : MetricReading) : Bool :=
  a.name.text < b.name.text || (a.name = b.name && a.family.rank ≤ b.family.rank)

def refreshAll (r : Registry) (now : Int64) : Registry :=
  { r with
    averages := r.averages.map fun _ => Average.refresh r.window now
    points := r.points.map fun _ => Point.refresh r.window now }

def rows (r : Registry) : List MetricReading :=
  (r.averages.entries.map (fun e => e.2.reading ⟨e.1⟩) ++
    r.points.entries.map (fun e => e.2.reading ⟨e.1⟩) ++
    r.counters.entries.map (fun e => e.2.reading ⟨e.1⟩)).mergeSort rowLE

theorem size_refreshAll (r : Registry) (now : Int64) : (r.refreshAll now).size = r.size := by
  simp [refreshAll, size]

theorem length_rows (r : Registry) : r.rows.length = r.size := by
  simp [rows, size, Dict.size, Nat.add_assoc]

def readings (r : Registry) (now : Int64) : List MetricReading × Registry :=
  let r := r.refreshAll now
  (r.rows, r)

/-- The reading of a name in the first family that has it. -/
def reading? (r : Registry) (key : MetricKey) (now : Int64) : Option MetricReading × Registry :=
  if r.averages.contains key.text then
    let (a, r) := r.average key now
    (some (a.reading key), r)
  else if r.points.contains key.text then
    let (p, r) := r.point key now
    (some (p.reading key), r)
  else (( r.counters.get? key.text).map (Counter.reading key), r)

theorem reading?_fst (r : Registry) (key : MetricKey) (now : Int64) :
    (r.reading? key now).1 =
      ((r.averages.get? key.text).map fun a => (a.refresh r.window now).reading key).or
        (((r.points.get? key.text).map fun p => (p.refresh r.window now).reading key).or
          ((r.counters.get? key.text).map (Counter.reading key))) := by
  rw [reading?]
  cases haverage : r.averages.get? key.text with
  | some a => simp [Dict.contains, haverage]
  | none =>
    cases hpoint : r.points.get? key.text with
    | some p => simp [Dict.contains, haverage, hpoint]
    | none => simp [Dict.contains, haverage, hpoint]

end Registry
end CallMetrics
