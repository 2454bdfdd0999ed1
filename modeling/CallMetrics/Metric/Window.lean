import CallMetrics.Metric.Kind
import CallMetrics.Word

/-! Metrics over a window of time. An average and a point are valid for one window after their last
update; `refresh` clears what is no longer valid, and every read and every update of an average
starts with it. A counter has no window. -/

namespace CallMetrics

structure Window where
  millis : Int64
  deriving DecidableEq

namespace Window

def ofMillis (millis : UInt64) : Window := ⟨Int64.ofIntClamp millis.toNat⟩

/-- A window is no longer than the greatest word. -/
theorem toInt_ofMillis (millis : UInt64) : (ofMillis millis).millis.toInt =
    if (millis.toNat : Int) ≤ Int64.maxValue.toInt then (millis.toNat : Int)
    else Int64.maxValue.toInt := by
  have hmin : Int64.minValue.toInt = -2 ^ 63 := Int64.toInt_minValue
  have hmax : Int64.maxValue.toInt = 2 ^ 63 - 1 := Int64.toInt_maxValue
  rw [ofMillis, toInt_ofIntClamp]
  split <;> omega

theorem ofMillis_nonneg (millis : UInt64) : 0 ≤ (ofMillis millis).millis.toInt := by
  have hmax : Int64.maxValue.toInt = 2 ^ 63 - 1 := Int64.toInt_maxValue
  rw [toInt_ofMillis]
  split <;> omega

def expired (w : Window) (now last : Int64) : Bool := w.millis ≤ satSub now last

theorem expired_iff {w : Window} (hw : 0 ≤ w.millis.toInt) (now last : Int64) :
    w.expired now last = true ↔ w.millis.toInt ≤ now.toInt - last.toInt := by
  rw [expired, decide_eq_true_eq, le_satSub_iff hw]

/-- What has expired stays so. -/
theorem expired_mono {w : Window} (hw : 0 ≤ w.millis.toInt) {now later last : Int64}
    (hle : now ≤ later) (h : w.expired now last = true) : w.expired later last = true := by
  rw [expired_iff hw] at h ⊢
  have hlater := Int64.le_iff_toInt_le.1 hle
  omega

end Window

/-- Half of the sum, without its fraction; if that were no word, the average would stay. -/
def halve (average value : Int64) : Int64 :=
  (word? ((average.toInt + value.toInt).tdiv 2)).getD average

/-- The half of a sum lies where both of its parts lie. -/
theorem le_tdiv_two_le {low high sum : Int} (hlow : low + low ≤ sum) (hhigh : sum ≤ high + high) :
    low ≤ sum.tdiv 2 ∧ sum.tdiv 2 ≤ high := by
  have hsign : (2 : Int).sign = 1 := rfl
  rw [Int.tdiv_eq_ediv, hsign]
  split <;> omega

theorem exists_word?_half (average value : Int64) :
    ∃ half, word? ((average.toInt + value.toInt).tdiv 2) = some half ∧
      half.toInt = (average.toInt + value.toInt).tdiv 2 := by
  have hlow : Int64.minValue.toInt + Int64.minValue.toInt ≤ average.toInt + value.toInt :=
    Int.add_le_add average.minValue_le_toInt value.minValue_le_toInt
  have hhigh : average.toInt + value.toInt ≤ Int64.maxValue.toInt + Int64.maxValue.toInt :=
    Int.add_le_add average.toInt_le value.toInt_le
  have hrange := le_tdiv_two_le hlow hhigh
  exact exists_word?_eq hrange.1 hrange.2

theorem toInt_halve (average value : Int64) :
    (halve average value).toInt = (average.toInt + value.toInt).tdiv 2 := by
  obtain ⟨half, hhalf, hvalue⟩ := exists_word?_half average value
  rw [halve, hhalf]
  exact hvalue

/-- The figures of a metric that can be asked for one by one. -/
inductive Figure
  | value
  | low
  | high
  | count
  deriving DecidableEq

def Figure.of (r : MetricReading) : Figure → Int
  | value => r.value.toInt
  | low => r.low.toInt
  | high => r.high.toInt
  | count => r.count.toNat

/-- A running average in which each reading weighs as much as all the ones before it, with the
lowest and the highest reading of the window. -/
structure Average where
  count : UInt64
  value : Int64
  low : Int64
  high : Int64
  last : Int64
  deriving DecidableEq

namespace Average

def new : Average := ⟨0, 0, 0, 0, 0⟩

def refresh (w : Window) (now : Int64) (a : Average) : Average :=
  if w.expired now a.last then ⟨0, 0, 0, 0, a.last⟩ else a

theorem refresh_new (w : Window) (now : Int64) : new.refresh w now = new := by
  rw [refresh]
  split <;> rfl

/-- What is cleared at a time is not cleared again at that time. -/
theorem refresh_self (w : Window) (now : Int64) (a : Average) :
    (a.refresh w now).refresh w now = a.refresh w now := by
  cases hnow : w.expired now a.last with
  | true => simp [refresh, hnow]
  | false => simp [refresh, hnow]

theorem getD_map_refresh (w : Window) (now : Int64) (stored : Option Average) :
    (stored.map (refresh w now)).getD .new = (stored.getD .new).refresh w now := by
  cases stored with
  | some _ => rfl
  | none => exact (refresh_new w now).symm

def merge (now v : Int64) (a : Average) : Average :=
  if a.count = 0 then ⟨a.count + 1, v, v, v, now⟩
  else ⟨a.count + 1, halve a.value v, min a.low v, max a.high v, now⟩

def update (w : Window) (now v : Int64) (a : Average) : Average := (a.refresh w now).merge now v

/-- The answer to a question for one of the words of an average, which is zero for what has expired. -/
def shown (w : Window) (now : Int64) (word : Average → Int64) (a : Average) : Int64 :=
  if w.expired now a.last then 0 else word a

/-- What an average is asked for; to ask clears what has expired. -/
def ask (w : Window) (now : Int64) (figure : Figure) (a : Average) : Int × Average :=
  let answer : Int := match figure with
    | .value => (a.shown w now (·.value)).toInt
    | .low => (a.shown w now (·.low)).toInt
    | .high => (a.shown w now (·.high)).toInt
    | .count => (a.refresh w now).count.toNat
  (answer, a.refresh w now)

def reading (name : MetricKey) (a : Average) : MetricReading :=
  ⟨name, .average, a.value, a.low, a.high, a.count⟩

theorem ask_eq (w : Window) (now : Int64) (name : MetricKey) (figure : Figure) (a : Average) :
    a.ask w now figure = (figure.of ((a.refresh w now).reading name), a.refresh w now) := by
  have hshown (word : Average → Int64) (hcleared : word ⟨0, 0, 0, 0, a.last⟩ = 0) :
      a.shown w now word = word (a.refresh w now) := by
    rw [shown, refresh]
    split
    · exact hcleared.symm
    · rfl
  cases figure with
  | value => rw [ask, hshown (·.value) rfl]; rfl
  | low => rw [ask, hshown (·.low) rfl]; rfl
  | high => rw [ask, hshown (·.high) rfl]; rfl
  | count => rfl

end Average

structure Point where
  value : Int64
  last : Int64
  deriving DecidableEq

namespace Point

def new : Point := ⟨0, 0⟩

def refresh (w : Window) (now : Int64) (p : Point) : Point :=
  if w.expired now p.last then ⟨0, p.last⟩ else p

theorem refresh_new (w : Window) (now : Int64) : new.refresh w now = new := by
  rw [refresh]
  split <;> rfl

theorem refresh_self (w : Window) (now : Int64) (p : Point) :
    (p.refresh w now).refresh w now = p.refresh w now := by
  cases hnow : w.expired now p.last with
  | true => simp [refresh, hnow]
  | false => simp [refresh, hnow]

theorem getD_map_refresh (w : Window) (now : Int64) (stored : Option Point) :
    (stored.map (refresh w now)).getD .new = (stored.getD .new).refresh w now := by
  cases stored with
  | some _ => rfl
  | none => exact (refresh_new w now).symm

def update (now v : Int64) (_ : Point) : Point := ⟨v, now⟩

/-- A point is asked for its value, which is zero if it has expired; to ask clears it then. -/
def ask (w : Window) (now : Int64) (p : Point) : Int64 × Point :=
  (if w.expired now p.last then 0 else p.value, p.refresh w now)

theorem ask_eq (w : Window) (now : Int64) (p : Point) :
    p.ask w now = ((p.refresh w now).value, p.refresh w now) := by
  rw [ask, refresh]
  split <;> rfl

def reading (name : MetricKey) (p : Point) : MetricReading :=
  ⟨name, .point, p.value, p.value, p.value, if p.value = 0 then 0 else 1⟩

end Point

/-- A sum that wraps around, with the number of its updates. -/
structure Counter where
  value : Int64
  updates : UInt64
  deriving DecidableEq

namespace Counter

def new : Counter := ⟨0, 0⟩

def add (delta : Int64) (c : Counter) : Counter := ⟨c.value + delta, c.updates + 1⟩

def assign (value : Int64) (c : Counter) : Counter := ⟨value, c.updates + 1⟩

def reading (name : MetricKey) (c : Counter) : MetricReading :=
  ⟨name, .counter, c.value, c.value, c.value, c.updates⟩

end Counter
end CallMetrics
