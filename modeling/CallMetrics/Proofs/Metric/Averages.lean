import Mathlib.Algebra.Group.Nat.Defs
import Mathlib.Data.List.Induction
import CallMetrics.Metric.Window

/-! An average under any clock. The clock may stand still, jump, or go back into a window that a question
has already cleared. What the average holds is about the values that it was given since it was last
cleared: their number, and a low and a high that are two of them, with the average between
(`Spans`). Every act keeps this, since the half of a sum lies where both of its parts lie. -/

namespace CallMetrics

/-- What is done with an average. Each act reads the clock once. -/
inductive AverageAct
  | update (value : Int64)
  | ask (figure : Figure)
  | reading

def AverageAct.isUpdate : AverageAct → Bool
  | update _ => true
  | ask _ => false
  | reading => false

/-- The values that an average was given since it was last cleared, and when it was last given one.
The first act after the window that began then clears it. -/
structure Supply where
  last : Int64
  values : List Int64

namespace Supply
variable (w : Window) (now : Int64) (s : Supply)

def live : List Int64 := if w.expired now s.last then [] else s.values

def act : AverageAct → Supply
  | .update v => ⟨now, s.live w now ++ [v]⟩
  | .ask _ => ⟨s.last, s.live w now⟩
  | .reading => ⟨s.last, s.live w now⟩

def ofLog (log : List (Int64 × AverageAct)) : Supply :=
  log.foldl (fun s step => s.act w step.1 step.2) ⟨0, []⟩

theorem ofLog_concat (log : List (Int64 × AverageAct)) (act : AverageAct) :
    ofLog w (log ++ [(now, act)]) = (ofLog w log).act w now act := List.foldl_append

theorem length_live_le : (s.live w now).length ≤ s.values.length := by
  rw [live]
  split
  · exact Nat.zero_le _
  · exact Nat.le_refl _

theorem length_ofLog_le (log : List (Int64 × AverageAct)) :
    (ofLog w log).values.length ≤ log.countP (·.2.isUpdate) := by
  induction log using List.reverseRecOn with
  | nil => exact Nat.le_refl _
  | append_singleton log step ih =>
    obtain ⟨now, act⟩ := step
    have hlive := Nat.le_trans ((ofLog w log).length_live_le w now) ih
    rw [ofLog_concat, List.countP_append]
    cases act with
    | update v =>
      show ((ofLog w log).live w now ++ [v]).length ≤ _
      rw [List.length_append]
      exact Nat.succ_le_succ hlive
    | ask figure => exact hlive
    | reading => exact hlive

end Supply

namespace Average
variable (w : Window) (now : Int64)

def act (a : Average) : AverageAct → Average
  | .update v => a.update w now v
  | .ask figure => (a.ask w now figure).2
  | .reading => a.refresh w now

def ofLog (log : List (Int64 × AverageAct)) : Average :=
  log.foldl (fun a step => a.act w step.1 step.2) .new

theorem ofLog_concat (log : List (Int64 × AverageAct)) (act : AverageAct) :
    ofLog w (log ++ [(now, act)]) = (ofLog w log).act w now act := List.foldl_append

/-- Questions one after another at one time. -/
def askAll (a : Average) : List Figure → List Int × Average
  | [] => ([], a)
  | figure :: rest =>
    let (answer, asked) := a.ask w now figure
    let (answers, last) := asked.askAll rest
    (answer :: answers, last)

variable {w now} {a : Average} {values : List Int64}

/-- An average is about some values: it counts them, and its low and its high are two of them between
which it lies. About no values all of it is zero. -/
structure Spans (a : Average) (values : List Int64) : Prop where
  count : a.count.toNat = values.length
  figures : (values = [] ∧ a.value = 0 ∧ a.low = 0 ∧ a.high = 0) ∨
    (a.low ≤ a.value ∧ a.value ≤ a.high ∧ a.low ∈ values ∧ a.high ∈ values)

theorem spans_cleared (last : Int64) : Spans ⟨0, 0, 0, 0, last⟩ [] where
  count := rfl
  figures := .inl ⟨rfl, rfl, rfl, rfl⟩

theorem Spans.count_eq_zero (h : a.Spans []) : a.count = 0 := by
  have hnone : a.count.toNat = (0 : UInt64).toNat := h.count
  exact UInt64.toNat_inj.1 hnone

/-- The half of a sum of words lies where both of them lie. -/
theorem le_halve_le {low high average value : Int64} (haverage : low ≤ average ∧ average ≤ high)
    (hvalue : low ≤ value ∧ value ≤ high) :
    low ≤ halve average value ∧ halve average value ≤ high := by
  simp only [Int64.le_iff_toInt_le] at haverage hvalue ⊢
  rw [toInt_halve]
  exact le_tdiv_two_le (Int.add_le_add haverage.1 hvalue.1) (Int.add_le_add haverage.2 hvalue.2)

theorem Spans.refresh (h : a.Spans values) (w : Window) (now : Int64) :
    (a.refresh w now).Spans (if w.expired now a.last then [] else values) := by
  rw [Average.refresh]
  split
  · exact spans_cleared a.last
  · exact h

theorem Spans.merge (h : a.Spans values) (hroom : values.length + 1 < UInt64.size)
    (now v : Int64) : (a.merge now v).Spans (values ++ [v]) := by
  have hnext : (a.count + 1).toNat = (values ++ [v]).length := by
    have hone : (1 : UInt64).toNat = 1 := rfl
    rw [UInt64.toNat_add, hone, h.count, List.length_append, List.length_singleton]
    exact Nat.mod_eq_of_lt hroom
  have hv : v ∈ values ++ [v] := List.mem_append_right values List.mem_cons_self
  rw [Average.merge]
  split
  · -- the first value is the average and both of its bounds
    exact ⟨hnext, .inr ⟨Int64.le_refl v, Int64.le_refl v, hv, hv⟩⟩
  · rename_i hcount
    rcases h.figures with ⟨rfl, -⟩ | ⟨hlow, hhigh, hlowMem, hhighMem⟩
    · exact absurd h.count_eq_zero hcount
    · have hbetween : min a.low v ≤ halve a.value v ∧ halve a.value v ≤ max a.high v := by
        apply le_halve_le
        · exact ⟨Int64.le_trans Std.min_le_left hlow, Int64.le_trans hhigh Std.left_le_max⟩
        · exact ⟨Std.min_le_right, Std.right_le_max⟩
      have hlowest : min a.low v ∈ values ++ [v] := by
        rcases Std.min_eq_or (a := a.low) (b := v) with hmin | hmin
        · rw [hmin]
          exact List.mem_append_left [v] hlowMem
        · rw [hmin]
          exact hv
      have hhighest : max a.high v ∈ values ++ [v] := by
        rcases Std.max_eq_or (a := a.high) (b := v) with hmax | hmax
        · rw [hmax]
          exact List.mem_append_left [v] hhighMem
        · rw [hmax]
          exact hv
      exact ⟨hnext, .inr ⟨hbetween.1, hbetween.2, hlowest, hhighest⟩⟩

/-- What an average holds follows the values it is given. -/
structure Follows (a : Average) (s : Supply) : Prop where
  last : a.last = s.last
  spans : a.Spans s.values

variable {s : Supply}

theorem Follows.refresh (h : a.Follows s) (w : Window) (now : Int64) :
    (a.refresh w now).Follows ⟨s.last, s.live w now⟩ := by
  constructor
  · rw [Average.refresh]
    split <;> exact h.last
  · rw [Supply.live, ← h.last]
    exact h.spans.refresh w now

theorem Follows.act (h : a.Follows s) (w : Window) (now : Int64) (act : AverageAct)
    (hroom : act.isUpdate = true → s.values.length + 1 < UInt64.size) :
    (a.act w now act).Follows (s.act w now act) := by
  have hrefreshed := h.refresh w now
  cases act with
  | update v =>
    have hlive := Nat.succ_le_succ (s.length_live_le w now)
    have hmerged := hrefreshed.spans.merge (Nat.lt_of_le_of_lt hlive (hroom rfl)) now v
    refine ⟨?_, hmerged⟩
    show ((a.refresh w now).merge now v).last = now
    rw [Average.merge]
    split <;> rfl
  | ask figure => exact hrefreshed
  | reading => exact hrefreshed

theorem follows_ofLog (w : Window) (log : List (Int64 × AverageAct))
    (hfew : log.countP (·.2.isUpdate) < UInt64.size) :
    (ofLog w log).Follows (Supply.ofLog w log) := by
  induction log using List.reverseRecOn with
  | nil => exact ⟨rfl, spans_cleared 0⟩
  | append_singleton log step ih =>
    obtain ⟨now, act⟩ := step
    rw [List.countP_append] at hfew
    have hbefore := ih (Nat.lt_of_le_of_lt (Nat.le_add_right _ _) hfew)
    rw [ofLog_concat, Supply.ofLog_concat]
    apply hbefore.act
    intro hupdate
    have hone : [(now, act)].countP (·.2.isUpdate) = 1 := List.countP_singleton.trans (if_pos hupdate)
    rw [hone] at hfew
    exact Nat.lt_of_le_of_lt (Nat.succ_le_succ (Supply.length_ofLog_le w log)) hfew

theorem askAll_fst (w : Window) (now : Int64) (name : MetricKey) (figures : List Figure)
    (a : Average) :
    (a.askAll w now figures).1 = figures.map (Figure.of ((a.refresh w now).reading name)) := by
  induction figures generalizing a with
  | nil => rfl
  | cons figure rest ih =>
    have hrest := ih (a.refresh w now)
    rw [refresh_self] at hrest
    rw [List.map_cons, ← hrest, askAll, ask_eq w now name]

theorem refresh_askAll (w : Window) (now : Int64) (figures : List Figure) (a : Average) :
    (a.askAll w now figures).2.refresh w now = a.refresh w now := by
  induction figures generalizing a with
  | nil => rfl
  | cons figure rest ih => exact (ih (a.refresh w now)).trans (refresh_self w now a)

end Average

/-- However the clock reads, an average that has been given fewer than 2^64 values counts those that it was
given since it was last cleared, and either it is all zero and there are none, or it lies between a
low and a high that are two of them. The half of the sum of two words is always a word, so an
average never has to stay as it was. Its reading at one time tells the same as its figures, in
whatever order they are asked for, before or after the reading. -/
theorem average_well_formed (w : Window) (log : List (Int64 × AverageAct))
    (hfew : log.countP (·.2.isUpdate) < 2 ^ 64) :
    let a := Average.ofLog w log
    let values := (Supply.ofLog w log).values
    a.count.toNat = values.length ∧
      ((a.count = 0 ∧ a.value = 0 ∧ a.low = 0 ∧ a.high = 0) ∨
        (a.low ≤ a.value ∧ a.value ≤ a.high ∧ a.low ∈ values ∧ a.high ∈ values)) ∧
      (∀ average value : Int64, ∃ half, word? ((average.toInt + value.toInt).tdiv 2) = some half) ∧
      ∀ now name figures,
        let shown := (a.refresh w now).reading name
        (a.askAll w now figures).1 = figures.map (Figure.of shown) ∧
          ((a.askAll w now figures).2.refresh w now).reading name = shown ∧
          ((a.refresh w now).askAll w now figures).1 = figures.map (Figure.of shown) := by
  intro a values
  have hspans := (Average.follows_ofLog w log hfew).spans
  refine ⟨hspans.count, ?_, ?_, ?_⟩
  · rcases hspans.figures with ⟨hnone, hzero⟩ | hbetween
    · rw [hnone] at hspans
      exact .inl ⟨hspans.count_eq_zero, hzero⟩
    · exact .inr hbetween
  · intro average value
    obtain ⟨half, hhalf, -⟩ := exists_word?_half average value
    exact ⟨half, hhalf⟩
  · intro now name figures
    refine ⟨a.askAll_fst w now name figures, ?_, ?_⟩
    · rw [Average.refresh_askAll]
    · rw [Average.askAll_fst w now name, Average.refresh_self]

/-- A question that clears the average comes from a clock that then goes back. -/
theorem average_well_formed_backwards :
    let log : List (Int64 × AverageAct) := [(5, .update 70), (9, .update 4), (40, .ask .low),
      (9, .update 3), (12, .update (-8)), (-3, .reading)]
    let a := Average.ofLog (.ofMillis 10) log
    log.countP (·.2.isUpdate) < 2 ^ 64 ∧ (Supply.ofLog (.ofMillis 10) log).values = [3, -8] ∧
      a.value = -2 ∧ a.low ≤ a.value ∧ a.value ≤ a.high ∧ a.low ∈ [3, -8] ∧ a.high ∈ [3, -8] := by
  intro log a
  have hfew : log.countP (·.2.isUpdate) < 2 ^ 64 := by decide +kernel
  obtain ⟨-, hzero | hbetween, -⟩ := average_well_formed (.ofMillis 10) log hfew
  · exact absurd hzero.1 (by decide +kernel)
  · exact ⟨hfew, by decide +kernel, by decide +kernel, hbetween⟩

end CallMetrics
