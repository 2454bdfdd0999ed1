import Mathlib.Algebra.BigOperators.Group.List.Basic
import Mathlib.Algebra.Ring.Int.Defs
import CallMetrics.Proofs.Calls.Storage

/-! What a table of readings shows of counters. While they are only ever raised by one, the rows of
counters add up to how often that was (`sum_counter_rows`). An update leaves no registry empty. -/

namespace CallMetrics

namespace Dict
variable {α : Type} (k : String) (v : α)

theorem length_insertEntry_pos (es : List (String × α)) : 0 < (insertEntry k v es).length := by
  cases es with
  | nil => exact Nat.zero_lt_one
  | cons e rest =>
    unfold insertEntry
    split
    · exact Nat.succ_pos _
    · split <;> exact Nat.succ_pos _

theorem size_insert_pos (d : Dict α) : 0 < (d.insert k v).size :=
  length_insertEntry_pos k v d.entries

end Dict

/-- The counters have been raised by one `n` times in all. -/
inductive Counted : Nat → List (String × Counter) → Prop
  | nil : Counted 0 []
  | cons {n m : Nat} {e : String × Counter} {rest : List (String × Counter)}
      (value : e.2.value = .ofNat m) (counted : Counted n rest) : Counted (n + m) (e :: rest)

namespace Counted
variable {n : Nat} {counters : List (String × Counter)}

/-- A counter that there is not yet starts at zero. -/
theorem insertEntry (h : Counted n counters) (hsorted : counters.Pairwise (·.1 < ·.1))
    (k : String) : Counted (n + 1)
      (Dict.insertEntry k (((Dict.find? k counters).getD .new).add 1) counters) := by
  induction h with
  | nil => exact nil.cons (m := 1) rfl
  | @cons n m e rest value counted ih =>
    obtain ⟨hrest, hpair⟩ := List.pairwise_cons.1 hsorted
    unfold Dict.insertEntry
    split
    · rename_i hlt
      have hnone : Dict.find? k (e :: rest) = none := by
        refine Dict.find?_eq_none_of_lt fun x hx => ?_
        rcases List.mem_cons.1 hx with rfl | hx
        · exact hlt
        · exact String.lt_trans hlt (hrest x hx)
      rw [hnone]
      exact (counted.cons value).cons rfl
    · split
      · rename_i hk
        rw [Dict.find?, if_pos hk, Nat.add_assoc]
        refine counted.cons ?_
        rw [Option.getD_some, Counter.add, value, Int64.ofNat_add]
        rfl
      · rename_i hk
        rw [Dict.find?, if_neg hk, Nat.add_right_comm]
        exact (ih hpair).cons value

theorem addCount {r : Registry} (h : Counted n r.counters.entries) (key : MetricKey) :
    Counted (n + 1) (r.addCount key 1).counters.entries := h.insertEntry r.counters.sorted key.text

/-- While no counter leaves the range of words, none has wrapped. -/
theorem sum_toInt (h : Counted n counters) (hn : n < 2 ^ 63) :
    (counters.map (·.2.value.toInt)).sum = n := by
  induction h with
  | nil => rfl
  | @cons n m e rest value counted ih =>
    rw [List.map_cons, List.sum_cons, value, Int64.toInt_ofNat_of_lt (by omega), ih (by omega)]
    omega

end Counted

namespace Registry

theorem size_update_pos (r : Registry) (u : MetricUpdate) : 0 < (r.update u).size := by
  unfold update size
  cases u.slot.family with
  | average => exact Nat.add_pos_left (Nat.add_pos_left (Dict.size_insert_pos _ _ _) _) _
  | point => exact Nat.add_pos_left (Nat.add_pos_right _ (Dict.size_insert_pos _ _ _)) _
  | counter => exact Nat.add_pos_right _ (Dict.size_insert_pos _ _ _)

theorem Updated.size_pos {slots : List Slot} {r r' : Registry} (h : Updated slots r r')
    (hslots : slots ≠ []) : 0 < r'.size := by
  obtain ⟨updates, rfl, rfl⟩ := h
  have hupdates : updates ≠ [] := by
    rintro rfl
    exact hslots rfl
  obtain ⟨others, last, hlast⟩ := (List.eq_nil_or_concat updates).resolve_left hupdates
  rw [hlast, List.concat_eq_append, List.foldl_append]
  exact size_update_pos _ last

theorem readings_ne_nil {r : Registry} (h : 0 < r.size) (now : Int64) :
    (r.readings now).1 ≠ [] := by
  apply List.ne_nil_of_length_pos
  exact (length_rows _).trans (size_refreshAll r now) ▸ h

/-- The rows of counters show what has been counted. -/
theorem sum_counter_rows {n : Nat} {r : Registry} (h : Counted n r.counters.entries)
    (hn : n < 2 ^ 63) (now : Int64) :
    (((r.readings now).1.filter (·.family = .counter)).map (·.value.toInt)).sum = n := by
  have hfilter : ((r.readings now).1.filter (·.family = .counter)).Perm
      (r.counters.entries.map fun e => e.2.reading ⟨e.1⟩) := by
    refine ((List.mergeSort_perm _ _).filter _).trans (.of_eq ?_)
    simp [List.filter_append, List.filter_map, Function.comp_def, Average.reading, Point.reading,
      Counter.reading, refreshAll]
  rw [(hfilter.map _).sum_eq, List.map_map, ← h.sum_toInt hn]
  rfl

end Registry
end CallMetrics
