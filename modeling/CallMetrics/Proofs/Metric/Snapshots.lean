import Mathlib.Algebra.Ring.Int.Defs
import CallMetrics.History
import CallMetrics.Metric.Kind

/-! A history with numeric keys. While its keys do not reach the largest word, every snapshot gets a
larger key than those before it, so it is kept until a full history forgets it as the oldest
(`Keeps.push`). Rows of a snapshot stand together, so its key is seen once (`eraseReps_rows`). -/

namespace CallMetrics

theorem OrderKey.lt_numeric (a b : Int) :
    (OrderKey.numeric a).lt (.numeric b) = decide (a < b) := rfl

theorem toInt_satAdd {a b : Int64} (hmin : -2 ^ 63 ≤ a.toInt + b.toInt)
    (hmax : a.toInt + b.toInt < 2 ^ 63) : (satAdd a b).toInt = a.toInt + b.toInt := by
  have h1 : Int64.minValue.toInt = -2 ^ 63 := Int64.toInt_minValue
  have h2 : Int64.maxValue.toInt = 2 ^ 63 - 1 := Int64.toInt_maxValue
  rw [satAdd, toInt_ofIntClamp]
  omega

namespace History
variable {α : Type}

variable {h : History α} {snapshots : List (List α)}

/-- A key after all others goes to the end. -/
theorem insertEntry_of_lt {key : OrderKey} {snapshot : List α} {entries : List (OrderKey × List α)}
    (hkey : ∀ e ∈ entries, key.lt e.1 = false ∧ key ≠ e.1) :
    insertEntry key snapshot entries = entries ++ [(key, snapshot)] := by
  induction entries with
  | nil => rfl
  | cons e rest ih =>
    obtain ⟨hlt, hne⟩ := hkey e (by simp)
    rw [insertEntry, if_neg (by simp [hlt]), if_neg hne, ih fun e he => hkey e (by simp [he])]
    rfl

theorem entries_keep {key : OrderKey} (snapshot : List α) (hsize : h.size ≤ h.capacity)
    (hkey : ∀ e ∈ h.entries, key.lt e.1 = false ∧ key ≠ e.1) : (h.keep key snapshot).entries =
      h.entries.drop (h.size + 1 - h.capacity) ++ [(key, snapshot)] := by
  have hretained : (if h.capacity ≤ h.size then h.entries.tail else h.entries) =
      h.entries.drop (h.size + 1 - h.capacity) := by
    split
    · rw [show h.size + 1 - h.capacity = 1 by omega, List.drop_one]
    · rw [show h.size + 1 - h.capacity = 0 by omega, List.drop_zero]
  refine (congrArg _ hretained).trans (insertEntry_of_lt fun e he => hkey e ?_)
  exact List.mem_of_mem_drop he

/-- The history keeps the last of some snapshots, as many as it has room for, in their order and
under increasing numbers. -/
structure Keeps (h : History α) (snapshots : List (List α)) : Prop where
  kind : h.kind = .numeric
  kept : h.entries.map (·.2) = snapshots.drop (snapshots.length - h.capacity)
  sorted : h.entries.Pairwise (·.1.lt ·.1)
  numbers : ∀ e ∈ h.entries, ∃ n : Int, e.1 = .numeric n ∧ n ≤ h.last.toInt

theorem keeps_new (limit : Nat) : (new .numeric limit : History α).Keeps [] :=
  ⟨rfl, by simp [new], .nil, by simp [new]⟩

theorem Keeps.size (hkeeps : h.Keeps snapshots) :
    h.size = min snapshots.length h.capacity := by
  rw [History.size, ← List.length_map (f := Prod.snd), hkeeps.kept, List.length_drop]
  omega

theorem Keeps.keep (hkeeps : h.Keeps snapshots) {millis : Int64}
    (hmillis : h.last.toInt < millis.toInt) (snapshot : List α) :
    ({ h with last := millis }.keep (.numeric millis.toInt) snapshot).Keeps
      (snapshots ++ [snapshot]) := by
  have hnumbers : ∀ e ∈ h.entries, ∃ n : Int, e.1 = .numeric n ∧ n < millis.toInt := by
    intro e he
    obtain ⟨n, hn, hle⟩ := hkeeps.numbers e he
    exact ⟨n, hn, Int.lt_of_le_of_lt hle hmillis⟩
  have hsize := hkeeps.size
  have hcapacity : 1 ≤ h.capacity := Nat.le_max_right _ _
  have hentries : ({ h with last := millis }.keep (.numeric millis.toInt) snapshot).entries =
      h.entries.drop (h.size + 1 - h.capacity) ++ [(.numeric millis.toInt, snapshot)] := by
    refine entries_keep snapshot (hsize ▸ Nat.min_le_right _ _) fun e he => ?_
    obtain ⟨n, hn, hlt⟩ := hnumbers e he
    rw [hn]
    simp [OrderKey.lt_numeric, Int.le_of_lt hlt, Int.ne_of_gt hlt]
  refine ⟨hkeeps.kind, ?_, ?_, fun e he => ?_⟩
  · have hdrop : snapshots.length - h.capacity + (h.size + 1 - h.capacity) =
        (snapshots ++ [snapshot]).length - h.capacity := by
      rw [List.length_append, List.length_singleton]
      omega
    rw [hentries, List.map_append, List.map_drop, hkeeps.kept, List.drop_drop, hdrop]
    refine (List.drop_append_of_le_length ?_).symm
    rw [List.length_append, List.length_singleton]
    omega
  · rw [hentries, List.pairwise_append]
    refine ⟨hkeeps.sorted.drop, List.pairwise_singleton _ _, fun a ha b hb => ?_⟩
    obtain ⟨n, hn, hlt⟩ := hnumbers a (List.mem_of_mem_drop ha)
    rw [List.mem_singleton.1 hb, hn]
    exact decide_eq_true hlt
  · rw [hentries] at he
    rcases List.mem_append.1 he with he | he
    · obtain ⟨n, hn, hlt⟩ := hnumbers e (List.mem_of_mem_drop he)
      exact ⟨n, hn, Int.le_of_lt hlt⟩
    · rw [List.mem_singleton.1 he]
      exact ⟨_, rfl, Int.le_refl _⟩

theorem Keeps.keys_ne (hkeeps : h.Keeps snapshots) : h.keys.Pairwise (· ≠ ·) := by
  refine List.pairwise_map.2 (hkeeps.sorted.imp_of_mem fun {a b} ha _ hlt heq => ?_)
  obtain ⟨n, hn, -⟩ := hkeeps.numbers a ha
  rw [← heq, hn] at hlt
  simp [OrderKey.lt_numeric] at hlt

theorem push_numeric (hkind : h.kind = .numeric) (now : Int64) (snapshot : List α) :
    let millis := max now (satAdd h.last 1)
    h.push now snapshot = (.ok (.numeric millis.toInt),
      { h with last := millis }.keep (.numeric millis.toInt) snapshot) := by
  obtain ⟨kind, limit, entries, last⟩ := h
  cases hkind
  rfl

theorem Keeps.push (hkeeps : h.Keeps snapshots) (hlast : h.last.toInt + 1 < 2 ^ 63) (now : Int64)
    (snapshot : List α) : (h.push now snapshot).2.Keeps (snapshots ++ [snapshot]) ∧
      (h.push now snapshot).2.capacity = h.capacity ∧
      (h.push now snapshot).2.last.toInt = max now.toInt (h.last.toInt + 1) := by
  have hmin := h.last.le_toInt
  have hone : (1 : Int64).toInt = 1 := rfl
  have hmillis : (max now (satAdd h.last 1)).toInt = max now.toInt (h.last.toInt + 1) := by
    rw [toInt_max, toInt_satAdd (by omega) (by omega), hone]
  rw [push_numeric hkeeps.kind]
  exact ⟨hkeeps.keep (by omega) snapshot, rfl, hmillis⟩

section Rows
variable {β : Type} [BEq β] [LawfulBEq β]

theorem eraseReps_replicate (a : β) (n : Nat) (rest acc : List β) :
    List.eraseRepsBy.loop (· == ·) a (List.replicate n a ++ rest) acc =
      List.eraseRepsBy.loop (· == ·) a rest acc := by
  induction n with
  | zero => rfl
  | succ n ih =>
    rw [List.replicate_succ, List.cons_append, List.eraseRepsBy.loop, beq_self_eq_true]
    exact ih

theorem eraseReps_runs (a : β) (runs : List (β × Nat)) (acc : List β)
    (hrun : ∀ e ∈ runs, 0 < e.2) (hne : (a :: runs.map (·.1)).Pairwise (· ≠ ·)) :
    List.eraseRepsBy.loop (· == ·) a (runs.flatMap fun e => List.replicate e.2 e.1) acc =
      acc.reverse ++ a :: runs.map (·.1) := by
  induction runs generalizing a acc with
  | nil => simp [List.eraseRepsBy.loop]
  | cons e rest ih =>
    obtain ⟨hhead, htail⟩ := List.pairwise_cons.1 hne
    obtain ⟨n, hn⟩ := Nat.exists_eq_succ_of_ne_zero (Nat.ne_of_gt (hrun e (by simp)))
    have hother : (a == e.1) = false := beq_eq_false_iff_ne.2 (hhead e.1 (by simp))
    rw [List.flatMap_cons, hn, List.replicate_succ, List.cons_append, List.eraseRepsBy.loop, hother]
    dsimp only
    rw [eraseReps_replicate, ih e.1 (a :: acc) (fun x hx => hrun x (by simp [hx])) htail]
    simp

end Rows

/-- The rows of one snapshot stand together. -/
theorem eraseReps_rows (hne : h.keys.Pairwise (· ≠ ·)) (hrows : ∀ e ∈ h.entries, e.2 ≠ []) :
    (h.rows.map (·.1)).eraseReps = h.keys := by
  have hruns : h.rows.map (·.1) =
      (h.entries.map fun e => (e.1, e.2.length)).flatMap fun e => List.replicate e.2 e.1 := by
    simp [rows, List.map_flatMap, List.flatMap_map, Function.comp_def, List.map_const']
  rw [hruns, keys]
  rw [keys] at hne
  generalize h.entries = entries at *
  cases entries with
  | nil => rfl
  | cons e rest =>
    obtain ⟨n, hn⟩ := Nat.exists_eq_succ_of_ne_zero
      (mt List.length_eq_zero_iff.1 (hrows e (by simp)))
    rw [List.map_cons, List.flatMap_cons, hn, List.replicate_succ, List.cons_append, List.eraseReps,
      List.eraseRepsBy, eraseReps_replicate, eraseReps_runs]
    · simp
    · intro x hx
      obtain ⟨y, hy, rfl⟩ := List.mem_map.1 hx
      exact List.length_pos_iff.2 (hrows y (by simp [hy]))
    · simpa [Function.comp_def] using hne

end History
end CallMetrics
