import CallMetrics.Metric.Window

/-! Metrics as their samples tell them. What an average shows at a time follows from the samples that
are live then: the longest end of all its samples in which each comes within the window after the one
before it, if the last one is within the window of that time. A stored average may have been cleared
before or not, but refreshing it always gives what its samples tell (`Tells`), and this is kept
by reads and updates in the order of time. -/

namespace CallMetrics

/-- A value that a metric was updated with, and when. -/
structure Sample where
  time : Int64
  value : Int64
  deriving DecidableEq

namespace Window
variable (w : Window)

/-- The time between two moments is less than the window. -/
def holds (start now : Int64) : Bool := now.toInt - start.toInt < w.millis.toInt

def steady : List Sample → Bool
  | [] => true
  | [_] => true
  | s :: t :: rest => w.holds s.time t.time && steady (t :: rest)

/-- The longest end that is steady. -/
def live : List Sample → List Sample
  | [] => []
  | s :: rest => if w.steady (s :: rest) then s :: rest else live rest

/-- The samples that count at a time: none if the last one is a window ago. -/
def liveAt (now : Int64) (samples : List Sample) : List Sample :=
  match samples.getLast? with
  | some s => if w.holds s.time now then w.live samples else []
  | none => []

variable {w}

theorem live_suffix (samples : List Sample) : w.live samples <:+ samples := by
  induction samples with
  | nil => exact List.suffix_refl _
  | cons s rest ih =>
    rw [live]
    split
    · exact List.suffix_refl _
    · exact ih.trans (List.suffix_cons s rest)

theorem steady_live (samples : List Sample) : w.steady (w.live samples) = true := by
  induction samples with
  | nil => rfl
  | cons s rest ih =>
    rw [live]
    split
    · assumption
    · exact ih

theorem length_liveAt_le (now : Int64) (samples : List Sample) :
    (w.liveAt now samples).length ≤ samples.length := by
  rw [liveAt]
  split
  · split
    · exact (live_suffix samples).length_le
    · exact Nat.zero_le _
  · exact Nat.zero_le _

/-- Among the ends of the samples that are steady, one has all others as its ends. -/
structure LongestSteady (w : Window) (samples part : List Sample) : Prop where
  suffix : part <:+ samples
  steady : w.steady part = true
  longest : ∀ other, other <:+ samples → w.steady other = true → other <:+ part

theorem suffix_live {part samples : List Sample} (h : part <:+ samples)
    (hsteady : w.steady part = true) : part <:+ w.live samples := by
  induction samples with
  | nil => exact h
  | cons s rest ih =>
    rw [live]
    split
    · exact h
    · rename_i hnot
      rcases List.suffix_cons_iff.1 h with rfl | h
      · exact absurd hsteady hnot
      · exact ih h

theorem longestSteady_live (samples : List Sample) : w.LongestSteady samples (w.live samples) :=
  ⟨live_suffix samples, steady_live samples, fun _ => suffix_live⟩

theorem liveAt_of_last {samples : List Sample} {last : Sample}
    (hlast : samples.getLast? = some last) (now : Int64) :
    w.liveAt now samples = if w.holds last.time now then w.live samples else [] := by
  rw [liveAt, hlast]

theorem steady_append_singleton {samples : List Sample} {last : Sample}
    (hlast : samples.getLast? = some last) (t : Sample) :
    w.steady (samples ++ [t]) = (w.steady samples && w.holds last.time t.time) := by
  induction samples with
  | nil => simp at hlast
  | cons s rest ih =>
    cases rest with
    | nil =>
      obtain rfl : s = last := by simpa using hlast
      simp [steady]
    | cons r rest =>
      rw [List.getLast?_cons_cons] at hlast
      have hrest := ih hlast
      rw [List.cons_append] at hrest
      rw [List.cons_append, List.cons_append, steady, hrest, steady, Bool.and_assoc]

/-- A new sample joins those that are live when it comes. -/
theorem live_append_singleton (samples : List Sample) (t : Sample) :
    w.live (samples ++ [t]) = w.liveAt t.time samples ++ [t] := by
  induction samples with
  | nil => rfl
  | cons s rest ih =>
    obtain ⟨last, hlast⟩ : ∃ last, (s :: rest).getLast? = some last := ⟨_, rfl⟩
    rw [liveAt_of_last hlast, List.cons_append, live, ← List.cons_append,
      steady_append_singleton hlast, live, ih]
    cases rest with
    | nil => cases w.holds last.time t.time <;> rfl
    | cons r rest =>
      -- Without `s` the last sample is the same, so the gap before `t` is the same too.
      rw [List.getLast?_cons_cons] at hlast
      rw [liveAt_of_last hlast]
      cases w.holds last.time t.time <;> cases w.steady (s :: r :: rest) <;> rfl

theorem holds_eq_not_expired (hw : 0 ≤ w.millis.toInt) (start now : Int64) :
    w.holds start now = !w.expired now start := by
  have hexpired := expired_iff hw now start
  cases hcase : w.expired now start with
  | true =>
    have hlong := hexpired.1 hcase
    simp only [holds, Bool.not_true, decide_eq_false_iff_not]
    omega
  | false =>
    have hshort : ¬w.millis.toInt ≤ now.toInt - start.toInt := by simp [← hexpired, hcase]
    simp only [holds, Bool.not_false, decide_eq_true_eq]
    omega

end Window

/-- The time of the last sample, zero if there is none. -/
def lastTime (samples : List Sample) : Int64 := (samples.getLast?.map (·.time)).getD 0

@[simp] theorem lastTime_append_singleton (samples : List Sample) (t : Sample) :
    lastTime (samples ++ [t]) = t.time := by
  simp [lastTime]

/-- From the given time on, refreshing what is stored gives what is told for the time. -/
def Tells {α : Type} (refresh : Int64 → α → α) (told : Int64 → α) (time : Int64) (stored : α) :
    Prop :=
  ∀ now, time ≤ now → refresh now stored = told now

section
variable {α : Type} {refresh : Int64 → α → α} {told : Int64 → α} {time : Int64} {stored : α}

theorem Tells.later (h : Tells refresh told time stored) {later : Int64} (hle : time ≤ later) :
    Tells refresh told later stored :=
  fun now hnow => h now (Int64.le_trans hle hnow)

/-- To refresh it early makes no difference, if it makes none to a refresh. -/
theorem Tells.refreshed (h : Tells refresh told time stored)
    (hagain : ∀ now, time ≤ now → refresh now (refresh time stored) = refresh now stored) :
    Tells refresh told time (refresh time stored) :=
  fun now hnow => (hagain now hnow).trans (h now hnow)

end

namespace Average

/-- The average of some values in whole numbers: the first one, and for each later one half of the
sum with what there is. -/
def ofValues (last : Int64) : List Int64 → Average
  | [] => ⟨0, 0, 0, 0, last⟩
  | first :: rest =>
    ⟨.ofNat (rest.length + 1),
      .ofInt (rest.foldl (fun average v => (average + v.toInt).tdiv 2) first.toInt),
      rest.foldl min first, rest.foldl max first, last⟩

def ofSamples (w : Window) (samples : List Sample) (now : Int64) : Average :=
  ofValues (lastTime samples) ((w.liveAt now samples).map (·.value))

variable {w : Window}

theorem foldl_halve (rest : List Int64) (first : Int64) :
    (rest.foldl halve first).toInt =
      rest.foldl (fun average v => (average + v.toInt).tdiv 2) first.toInt := by
  induction rest generalizing first with
  | nil => rfl
  | cons v rest ih => rw [List.foldl_cons, List.foldl_cons, ih, toInt_halve]

theorem ofValues_cons (last first : Int64) (rest : List Int64) :
    ofValues last (first :: rest) =
      ⟨.ofNat (rest.length + 1), rest.foldl halve first, rest.foldl min first,
        rest.foldl max first, last⟩ := by
  rw [ofValues, ← foldl_halve, Int64.ofInt_toInt]

theorem merge_ofValues {values : List Int64} (hfew : values.length < UInt64.size)
    (last now v : Int64) :
    (ofValues last values).merge now v = ofValues now (values ++ [v]) := by
  cases values with
  | nil =>
    rw [ofValues, merge, if_pos rfl, List.nil_append, ofValues_cons]
    rfl
  | cons first rest =>
    rw [List.length_cons] at hfew
    -- An average takes a count of zero to mean that it is empty: it must not have wrapped.
    have hcount : UInt64.ofNat (rest.length + 1) ≠ 0 := by
      intro hzero
      have hnat := congrArg UInt64.toNat hzero
      rw [UInt64.toNat_ofNat_of_lt' hfew] at hnat
      exact Nat.succ_ne_zero _ hnat
    rw [ofValues_cons, merge, if_neg hcount, List.cons_append, ofValues_cons]
    simp [UInt64.ofNat_add, List.foldl_append]

theorem refresh_refresh (hw : 0 ≤ w.millis.toInt) {now later : Int64} (hle : now ≤ later)
    (a : Average) : (a.refresh w now).refresh w later = a.refresh w later := by
  cases hnow : w.expired now a.last with
  | true => simp [refresh, hnow, Window.expired_mono hw hle hnow]
  | false => simp [refresh, hnow]

theorem tells_new (time : Int64) : Tells (refresh w) (ofSamples w []) time .new :=
  fun now _ => refresh_new w now

theorem ofSamples_append_singleton (hw : 0 ≤ w.millis.toInt) (samples : List Sample) (t : Sample)
    (now : Int64) :
    ofSamples w (samples ++ [t]) now =
      if w.expired now t.time then ofValues t.time []
      else ofValues t.time ((w.liveAt t.time samples).map (·.value) ++ [t.value]) := by
  rw [ofSamples, lastTime_append_singleton, Window.liveAt_of_last List.getLast?_concat,
    Window.holds_eq_not_expired hw, Window.live_append_singleton]
  cases w.expired now t.time <;> simp

theorem tells_update (hw : 0 ≤ w.millis.toInt) {now : Int64} {samples : List Sample} {a : Average}
    (h : Tells (refresh w) (ofSamples w samples) now a) (hfew : samples.length < UInt64.size)
    (v : Int64) :
    Tells (refresh w) (ofSamples w (samples ++ [⟨now, v⟩])) now (a.update w now v) := by
  intro later _
  have hlive : ((w.liveAt now samples).map (·.value)).length < UInt64.size := by
    rw [List.length_map]
    exact Nat.lt_of_le_of_lt (Window.length_liveAt_le now samples) hfew
  have hlast : (ofValues now ((w.liveAt now samples).map (·.value) ++ [v])).last = now := by
    cases (w.liveAt now samples).map (·.value) <;> rfl
  rw [Average.update, h now (Int64.le_refl now), ofSamples, merge_ofValues hlive,
    ofSamples_append_singleton hw, Average.refresh, hlast]
  rfl

end Average

namespace Point

def ofSamples (w : Window) (samples : List Sample) (now : Int64) : Point :=
  match samples.getLast? with
  | some s => ⟨if w.holds s.time now then s.value else 0, s.time⟩
  | none => .new

variable {w : Window}

theorem refresh_refresh (hw : 0 ≤ w.millis.toInt) {now later : Int64} (hle : now ≤ later)
    (p : Point) : (p.refresh w now).refresh w later = p.refresh w later := by
  cases hnow : w.expired now p.last with
  | true => simp [refresh, hnow, Window.expired_mono hw hle hnow]
  | false => simp [refresh, hnow]

theorem tells_new (time : Int64) : Tells (refresh w) (ofSamples w []) time .new :=
  fun now _ => refresh_new w now

theorem tells_update (hw : 0 ≤ w.millis.toInt) (now v : Int64) (samples : List Sample) (p : Point) :
    Tells (refresh w) (ofSamples w (samples ++ [⟨now, v⟩])) now (p.update now v) := by
  intro later _
  simp only [ofSamples, List.getLast?_concat, Point.update, Point.refresh,
    Window.holds_eq_not_expired hw]
  by_cases hcase : w.expired later now = true <;> simp [hcase]

end Point

inductive CountUpdate
  | add (delta : Int64)
  | assign (value : Int64)
  deriving DecidableEq

namespace Counter

/-- What was added since the value was last set, on top of it, in whole numbers. -/
def total (base : Int) : List CountUpdate → Int
  | [] => base
  | .add delta :: rest => total (base + delta.toInt) rest
  | .assign value :: rest => total value.toInt rest

def ofUpdates (updates : List CountUpdate) : Counter :=
  ⟨.ofInt (total 0 updates), .ofNat updates.length⟩

theorem total_append_singleton (base : Int) (updates : List CountUpdate) (u : CountUpdate) :
    total base (updates ++ [u]) = total (total base updates) [u] := by
  induction updates generalizing base with
  | nil => rfl
  | cons first rest ih => cases first <;> exact ih _

theorem add_ofUpdates (updates : List CountUpdate) (delta : Int64) :
    (ofUpdates updates).add delta = ofUpdates (updates ++ [.add delta]) := by
  rw [add, ofUpdates, ofUpdates, total_append_singleton]
  simp [total, Int64.ofInt_add, UInt64.ofNat_add]

theorem assign_ofUpdates (updates : List CountUpdate) (value : Int64) :
    (ofUpdates updates).assign value = ofUpdates (updates ++ [.assign value]) := by
  rw [assign, ofUpdates, ofUpdates, total_append_singleton]
  simp [total, UInt64.ofNat_add]

end Counter
end CallMetrics
