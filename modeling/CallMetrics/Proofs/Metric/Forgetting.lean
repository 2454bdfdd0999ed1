import Mathlib.Algebra.Order.Floor.Div
import Mathlib.Algebra.Order.Ring.Nat
import Mathlib.GroupTheory.GroupAction.Ring
import CallMetrics.Proofs.Metric.Samples

/-! How fast an average forgets. Each value halves the distance of two averages that are given it, up to
rounding (`natAbs_halve_sub_le`): halves are rounded to zero, so two sums on either side of zero are
rounded towards each other and two on the same side lose at most a fraction. Rounded up, the
distance after some values is the first distance divided by two as often (`natAbs_foldl_halve_sub_le`). -/

namespace CallMetrics

theorem natAbs_halve_sub_le (a b v : Int64) :
    ((halve a v).toInt - (halve b v).toInt).natAbs ≤ (a.toInt - b.toInt).natAbs ⌈/⌉ 2 := by
  have hsign : (2 : Int).sign = 1 := rfl
  rw [toInt_halve, toInt_halve, Nat.ceilDiv_eq_add_pred_div, Int.tdiv_eq_ediv, Int.tdiv_eq_ediv, hsign]
  split <;> split <;> omega

theorem halve_self (v : Int64) : halve v v = v := by
  have htwice : v.toInt + v.toInt = v.toInt * 2 := by omega
  rw [← Int64.toInt_inj, toInt_halve, htwice]
  exact Int.mul_tdiv_cancel _ (by decide)

/-- To divide and round up step by step loses nothing. -/
theorem ceilDiv_two_ceilDiv_le (n k : Nat) : n ⌈/⌉ 2 ⌈/⌉ 2 ^ k ≤ n ⌈/⌉ 2 ^ (k + 1) := by
  have hpow : 0 < 2 ^ k := Nat.two_pow_pos k
  have hpowSucc : 0 < 2 ^ (k + 1) := Nat.two_pow_pos (k + 1)
  have hcovered : n ≤ 2 ^ (k + 1) * (n ⌈/⌉ 2 ^ (k + 1)) := le_smul_ceilDiv hpowSucc
  rw [ceilDiv_le_iff_le_mul hpow, ceilDiv_le_iff_le_mul Nat.two_pos, ← Nat.mul_assoc,
    ← Nat.pow_succ']
  exact hcovered

theorem natAbs_foldl_halve_sub_le (values : List Int64) (a b : Int64) :
    ((values.foldl halve a).toInt - (values.foldl halve b).toInt).natAbs ≤
      (a.toInt - b.toInt).natAbs ⌈/⌉ 2 ^ values.length := by
  induction values generalizing a b with
  | nil =>
    show (a.toInt - b.toInt).natAbs ≤ (a.toInt - b.toInt).natAbs ⌈/⌉ 1
    rw [ceilDiv_one]
  | cons v rest ih =>
    have hhalved := natAbs_halve_sub_le a b v
    have hpow : 0 < 2 ^ rest.length := Nat.two_pow_pos rest.length
    calc ((rest.foldl halve (halve a v)).toInt - (rest.foldl halve (halve b v)).toInt).natAbs
        ≤ ((halve a v).toInt - (halve b v).toInt).natAbs ⌈/⌉ 2 ^ rest.length := ih _ _
      _ ≤ (a.toInt - b.toInt).natAbs ⌈/⌉ 2 ⌈/⌉ 2 ^ rest.length :=
        (gc_mul_ceilDiv hpow).monotone_l hhalved
      _ ≤ (a.toInt - b.toInt).natAbs ⌈/⌉ 2 ^ (rest.length + 1) := ceilDiv_two_ceilDiv_le _ _

/-- Values that all are the average leave it as it is. -/
theorem foldl_halve_of_eq {values : List Int64} {v : Int64} (h : ∀ x ∈ values, x = v) :
    values.foldl halve v = v := by
  induction values with
  | nil => rfl
  | cons x rest ih =>
    rw [List.foldl_cons, h x List.mem_cons_self, halve_self]
    exact ih fun y hy => h y (List.mem_cons_of_mem x hy)

/-- Two words are less than 2^64 apart. -/
theorem natAbs_toInt_sub_le (a b : Int64) : (a.toInt - b.toInt).natAbs ≤ 2 ^ 64 := by
  have ha := a.le_toInt
  have ha' := a.toInt_lt
  have hb := b.le_toInt
  have hb' := b.toInt_lt
  omega

namespace Average
variable {w : Window} {a : Average}

/-- The window of an average is live at a time: it is not over, and there is a value in it. -/
structure LiveAt (w : Window) (a : Average) (now : Int64) : Prop where
  unexpired : w.expired now a.last = false
  nonempty : a.count ≠ 0

def updates (w : Window) (a : Average) (samples : List Sample) : Average :=
  samples.foldl (fun a s => a.update w s.time s.value) a

/-- Each of the samples finds the window live: it is not over, and there still is a value in it, as there
is until the count of its values wraps around. -/
def LiveThrough (w : Window) (a : Average) : List Sample → Prop
  | [] => True
  | s :: rest => a.LiveAt w s.time ∧ (a.update w s.time s.value).LiveThrough w rest

theorem LiveAt.value_update {now : Int64} (h : a.LiveAt w now) (v : Int64) :
    (a.update w now v).value = halve a.value v := by
  rw [update, refresh, h.unexpired, if_neg Bool.false_ne_true, merge, if_neg h.nonempty]

theorem LiveThrough.value_updates {samples : List Sample} (h : a.LiveThrough w samples) :
    (a.updates w samples).value = (samples.map (·.value)).foldl halve a.value := by
  induction samples generalizing a with
  | nil => rfl
  | cons s rest ih =>
    have hrest := ih h.2
    rw [h.1.value_update] at hrest
    exact hrest

end Average

/-- Two averages whose windows stay live are given the same values, each at its own times. Their distance
afterwards is at most the first one divided by two for each value, rounded up, so after 64 values it
is at most one; and if all values are the same, so far at most is an average from this value. -/
theorem halving_average_forgets {w w' : Window} {a b : Average} {samples samples' : List Sample}
    (ha : a.LiveThrough w samples) (hb : b.LiveThrough w' samples')
    (hvalues : samples.map (·.value) = samples'.map (·.value)) :
    let left := (a.updates w samples).value.toInt
    let right := (b.updates w' samples').value.toInt
    (left - right).natAbs ≤ (a.value.toInt - b.value.toInt).natAbs ⌈/⌉ 2 ^ samples.length ∧
      (64 ≤ samples.length → (left - right).natAbs ≤ 1) ∧
      ∀ v : Int64, (∀ s ∈ samples, s.value = v) →
        (left - v.toInt).natAbs ≤ (a.value.toInt - v.toInt).natAbs ⌈/⌉ 2 ^ samples.length := by
  intro left right
  have hleft : left = ((samples.map (·.value)).foldl halve a.value).toInt :=
    congrArg Int64.toInt ha.value_updates
  have hright : right = ((samples.map (·.value)).foldl halve b.value).toInt := by
    rw [hvalues]
    exact congrArg Int64.toInt hb.value_updates
  have hbound (b : Int64) := natAbs_foldl_halve_sub_le (samples.map (·.value)) a.value b
  rw [List.length_map, ← hleft] at hbound
  have hdistance := hbound b.value
  rw [← hright] at hdistance
  refine ⟨hdistance, ?_, ?_⟩
  · intro hlong
    have hpow : (2 : Nat) ^ 64 ≤ 2 ^ samples.length := Nat.pow_le_pow_right Nat.two_pos hlong
    have hone : (a.value.toInt - b.value.toInt).natAbs ⌈/⌉ 2 ^ samples.length ≤ 1 := by
      rw [ceilDiv_le_iff_le_mul (Nat.two_pow_pos _), Nat.mul_one]
      exact Nat.le_trans (natAbs_toInt_sub_le _ _) hpow
    exact Nat.le_trans hdistance hone
  · intro v hsame
    have hfixed : (samples.map (·.value)).foldl halve v = v := by
      apply foldl_halve_of_eq
      intro x hx
      obtain ⟨s, hs, rfl⟩ := List.mem_map.1 hx
      exact hsame s hs
    have hv := hbound v
    rw [hfixed] at hv
    exact hv

/-- Windows of different lengths. -/
theorem halving_average_forgets_sevens :
    let a : Average := ⟨1, 100, 100, 100, 0⟩
    let b : Average := ⟨4, -5, -20, 30, 80⟩
    let samples : List Sample := [⟨90, 7⟩, ⟨95, 7⟩, ⟨80, 7⟩]
    let samples' : List Sample := [⟨81, 7⟩, ⟨85, 7⟩, ⟨89, 7⟩]
    a.LiveThrough (.ofMillis 100) samples ∧ b.LiveThrough (.ofMillis 5) samples' ∧
      ((a.updates (.ofMillis 100) samples).value.toInt -
        (b.updates (.ofMillis 5) samples').value.toInt).natAbs ≤ 14 ∧
      ((a.updates (.ofMillis 100) samples).value.toInt - 7).natAbs ≤ 12 := by
  intro a b samples samples'
  have ha : a.LiveThrough (.ofMillis 100) samples :=
    ⟨⟨by decide, by decide⟩, ⟨by decide, by decide⟩, ⟨by decide, by decide⟩, trivial⟩
  have hb : b.LiveThrough (.ofMillis 5) samples' :=
    ⟨⟨by decide, by decide⟩, ⟨by decide, by decide⟩, ⟨by decide, by decide⟩, trivial⟩
  obtain ⟨hdistance, -, hsame⟩ := halving_average_forgets ha hb rfl
  refine ⟨ha, hb, Nat.le_trans hdistance ?_, Nat.le_trans (hsame 7 (by decide)) ?_⟩
  · decide +kernel
  · decide +kernel

end CallMetrics
