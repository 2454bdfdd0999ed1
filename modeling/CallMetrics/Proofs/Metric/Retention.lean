import Mathlib.Data.List.DropRight
import Mathlib.Data.List.Forall2
import CallMetrics.Proofs.Metric.Snapshots

/-! What a history with numeric keys retains of any number of pushes, whatever the clock reads. A key
is the reading of the clock, or the successor of the key before if that is larger, so keys increase
until they reach the largest word (`Retains.push`). Until then the history holds the last
snapshots that were pushed, in the order of the pushes (`numeric_history_keeps_newest`). -/

namespace CallMetrics

theorem lt_satAdd_one {a : Int64} (h : a < Int64.maxValue) : a < satAdd a 1 := by
  have hmin := a.le_toInt
  have hone : (1 : Int64).toInt = 1 := rfl
  have hmax : Int64.maxValue.toInt = 2 ^ 63 - 1 := Int64.toInt_maxValue
  rw [Int64.lt_iff_toInt_lt, hmax] at h
  rw [Int64.lt_iff_toInt_lt, toInt_satAdd (by omega) (by omega)]
  omega

theorem le_satAdd_one (a : Int64) : a ≤ satAdd a 1 := by
  by_cases h : a < Int64.maxValue
  · exact Int64.le_of_lt (lt_satAdd_one h)
  · -- the largest word is its own successor
    have ha : a = Int64.maxValue := Int64.le_antisymm (Int64.le_maxValue a) (Int64.not_lt.1 h)
    rw [ha]
    decide

namespace History
variable {α : Type}

/-- The answers to pushes that are made one after another, and the history after them. -/
def pushes (h : History α) :
    List (Int64 × List α) → List (Except KeyCollision OrderKey) × History α
  | [] => ([], h)
  | (now, snapshot) :: rest =>
    let (answer, pushed) := h.push now snapshot
    let (answers, last) := pushed.pushes rest
    (answer :: answers, last)

/-- The snapshots of some pushes, each under the key that it was given. -/
def filed (keys : List Int64) (log : List (Int64 × List α)) : List (OrderKey × List α) :=
  List.zipWith (fun key push => (.numeric key.toInt, push.2)) keys log

variable {h : History α} {keys : List Int64} {log : List (Int64 × List α)}

theorem pushes_concat (h : History α) (log : List (Int64 × List α)) (now : Int64)
    (snapshot : List α) : h.pushes (log ++ [(now, snapshot)]) =
      ((h.pushes log).1 ++ [((h.pushes log).2.push now snapshot).1],
        ((h.pushes log).2.push now snapshot).2) := by
  induction log generalizing h with
  | nil => rfl
  | cons push rest ih => simp only [List.cons_append, pushes, ih]

theorem filed_concat (hlength : keys.length = log.length) (key : Int64) (now : Int64)
    (snapshot : List α) : filed (keys ++ [key]) (log ++ [(now, snapshot)]) =
      filed keys log ++ [(.numeric key.toInt, snapshot)] :=
  List.zipWith_append hlength

theorem map_fst_filed (hlength : keys.length = log.length) :
    (filed keys log).map (·.1) = keys.map fun key => .numeric key.toInt := by
  induction keys generalizing log with
  | nil => rfl
  | cons key rest ih =>
    cases log with
    | nil => cases hlength
    | cons push pushes =>
      have hrest := ih (Nat.succ.inj hlength)
      exact congrArg (OrderKey.numeric key.toInt :: ·) hrest

theorem map_rtake {β γ : Type} (f : β → γ) (l : List β) (n : Nat) :
    (l.rtake n).map f = (l.map f).rtake n := by
  rw [List.rtake, List.map_drop, List.rtake, List.length_map]

theorem rtake_rtake_succ {β : Type} (l : List β) (n : Nat) :
    (l.rtake (n + 1)).rtake n = l.rtake n := by
  simp only [List.rtake_eq_reverse_take_reverse, List.reverse_reverse, List.take_take,
    Nat.min_eq_left (Nat.le_succ n)]

/-- What has come of some pushes, each with the reading of the clock, and of the keys they got. -/
structure Retains (h : History α) (log : List (Int64 × List α)) (keys : List Int64) : Prop where
  kind : h.kind = .numeric
  size : h.size ≤ h.capacity
  clock : List.Forall₂ (fun push key => push.1 ≤ key) log keys
  rising : keys.Pairwise fun earlier later => earlier < Int64.maxValue → earlier < later
  last : ∀ key ∈ keys, key ≤ h.last
  entries : (∀ key ∈ keys.dropLast, key < Int64.maxValue) →
    h.entries = (filed keys log).rtake h.capacity

theorem retains_new (limit : Nat) : (new .numeric limit : History α).Retains [] [] where
  kind := rfl
  size := Nat.zero_le _
  clock := .nil
  rising := .nil
  last := by simp
  entries := fun _ => (List.rtake_nil _).symm

theorem length_insertEntry_le (key : OrderKey) (snapshot : List α)
    (entries : List (OrderKey × List α)) :
    (insertEntry key snapshot entries).length ≤ entries.length + 1 := by
  induction entries with
  | nil => exact Nat.le_refl _
  | cons e rest ih =>
    rw [insertEntry]
    split
    · exact Nat.le_refl _
    · split
      · exact Nat.le_succ _
      · exact Nat.succ_le_succ ih

theorem size_keep_le (hsize : h.size ≤ h.capacity) (key : OrderKey) (snapshot : List α) :
    (h.keep key snapshot).size ≤ h.capacity := by
  have hcapacity : 1 ≤ h.capacity := Nat.le_max_right _ _
  have hentries := length_insertEntry_le key snapshot
    (if h.capacity ≤ h.size then h.entries.tail else h.entries)
  refine Nat.le_trans hentries ?_
  split
  · rw [List.length_tail]
    exact Nat.add_le_of_le_sub hcapacity (Nat.sub_le_sub_right hsize 1)
  · exact Nat.lt_of_not_le ‹_›

/-- The key of the next push. -/
def nextKey (h : History α) (now : Int64) : Int64 := max now (satAdd h.last 1)

theorem push_eq (hkind : h.kind = .numeric) (now : Int64) (snapshot : List α) :
    h.push now snapshot = (.ok (.numeric (h.nextKey now).toInt),
      { h with last := h.nextKey now }.keep (.numeric (h.nextKey now).toInt) snapshot) :=
  push_numeric hkind now snapshot

theorem le_nextKey (h : History α) (now : Int64) : now ≤ h.nextKey now := by
  rw [Int64.le_iff_toInt_le, nextKey, toInt_max]
  exact Int.le_max_left _ _

theorem succ_last_le_nextKey (h : History α) (now : Int64) : satAdd h.last 1 ≤ h.nextKey now := by
  rw [Int64.le_iff_toInt_le, nextKey, toInt_max]
  exact Int.le_max_right _ _

namespace Retains

theorem le_nextKey (hr : h.Retains log keys) (now : Int64) {key : Int64} (hkey : key ∈ keys) :
    key ≤ h.nextKey now :=
  Int64.le_trans (hr.last key hkey) (Int64.le_trans (le_satAdd_one _) (h.succ_last_le_nextKey now))

theorem lt_nextKey (hr : h.Retains log keys) (now : Int64) {key : Int64} (hkey : key ∈ keys)
    (hmax : key < Int64.maxValue) : key < h.nextKey now := by
  have hnext : satAdd h.last 1 ≤ h.nextKey now := h.succ_last_le_nextKey now
  by_cases hlast : h.last < Int64.maxValue
  · have hkeyLast : key ≤ h.last := hr.last key hkey
    exact Int64.lt_of_le_of_lt hkeyLast (Int64.lt_of_lt_of_le (lt_satAdd_one hlast) hnext)
  · have hlastNext : h.last ≤ h.nextKey now := Int64.le_trans (le_satAdd_one _) hnext
    exact Int64.lt_of_lt_of_le hmax (Int64.le_trans (Int64.not_lt.1 hlast) hlastNext)

/-- The next key is beyond all keys that are held. -/
theorem nextKey_newest (hr : h.Retains log keys) (now : Int64)
    (hmax : ∀ key ∈ keys, key < Int64.maxValue) :
    ∀ e ∈ h.entries, (OrderKey.numeric (h.nextKey now).toInt).lt e.1 = false ∧
      OrderKey.numeric (h.nextKey now).toInt ≠ e.1 := by
  intro e he
  rw [hr.entries fun key hkey => hmax key (List.dropLast_subset _ hkey)] at he
  have hkeys := List.mem_map_of_mem (f := (·.1)) (List.mem_of_mem_drop he)
  rw [map_fst_filed hr.clock.length_eq.symm] at hkeys
  obtain ⟨key, hkey, hnumber⟩ := List.mem_map.1 hkeys
  have hlt := Int64.lt_iff_toInt_lt.1 (hr.lt_nextKey now hkey (hmax key hkey))
  rw [← hnumber]
  simp [OrderKey.lt_numeric, Int.le_of_lt hlt, Int.ne_of_gt hlt]

theorem push (hr : h.Retains log keys) (now : Int64) (snapshot : List α) :
    (h.push now snapshot).2.Retains (log ++ [(now, snapshot)]) (keys ++ [h.nextKey now]) := by
  have hpush := push_eq hr.kind now snapshot
  constructor
  case kind => rw [hpush]; exact hr.kind
  case size => rw [hpush]; exact size_keep_le hr.size _ _
  case clock => exact List.rel_append hr.clock (.cons (h.le_nextKey now) .nil)
  case rising =>
    refine List.pairwise_append.2 ⟨hr.rising, List.pairwise_singleton _ _, ?_⟩
    intro earlier hearlier later hlater hmax
    rw [List.mem_singleton.1 hlater]
    exact hr.lt_nextKey now hearlier hmax
  case last =>
    intro key hkey
    rw [hpush]
    rcases List.mem_append.1 hkey with hkey | hkey
    · exact hr.le_nextKey now hkey
    · rw [List.mem_singleton.1 hkey]
      exact Int64.le_refl _
  case entries =>
    intro hmax
    rw [List.dropLast_concat] at hmax
    have hlength : keys.length = log.length := hr.clock.length_eq.symm
    have hheld := hr.entries fun key hkey => hmax key (List.dropLast_subset _ hkey)
    obtain ⟨n, hn⟩ : ∃ n, h.capacity = n + 1 :=
      Nat.exists_eq_add_of_le' (Nat.le_max_right _ _)
    have hdrop : h.entries.drop (h.size + 1 - h.capacity) = h.entries.rtake n := by
      rw [List.rtake, hn, Nat.add_sub_add_right]
      rfl
    rw [hpush, filed_concat hlength]
    refine (entries_keep (h := { h with last := h.nextKey now }) snapshot hr.size
      (hr.nextKey_newest now hmax)).trans ?_
    show h.entries.drop (h.size + 1 - h.capacity) ++ _ = List.rtake _ h.capacity
    rw [hdrop, hheld, hn, rtake_rtake_succ, List.rtake_concat_succ]

theorem capacity_push (hr : h.Retains log keys) (now : Int64) (snapshot : List α) :
    (h.push now snapshot).2.capacity = h.capacity := by
  rw [push_eq hr.kind]
  rfl

end Retains

/-- The keys of any pushes to a new history. -/
theorem exists_retains_pushes (limit : Nat) (log : List (Int64 × List α)) :
    ∃ keys, ((new .numeric limit).pushes log).1 = keys.map (fun key => .ok (.numeric key.toInt)) ∧
      ((new .numeric limit).pushes log).2.Retains log keys ∧
      ((new .numeric limit).pushes log).2.capacity = max limit 1 := by
  induction log using List.reverseRecOn with
  | nil => exact ⟨[], rfl, retains_new limit, rfl⟩
  | append_singleton log push ih =>
    obtain ⟨now, snapshot⟩ := push
    obtain ⟨keys, hanswers, hr, hcapacity⟩ := ih
    rw [pushes_concat]
    refine ⟨keys ++ [nextKey _ now], ?_, hr.push now snapshot,
      (hr.capacity_push now snapshot).trans hcapacity⟩
    rw [hanswers, List.map_append, push_eq hr.kind]
    rfl

end History

/-- However the clock reads, each push to a history with numeric keys gives a key that the reading of
the clock does not exceed, and a larger one than each key before that is not the largest word. While
no key but the last is the largest word, the history holds the snapshots of the last pushes, as
many as it has room for, in the order of the pushes and each under its own key. -/
theorem numeric_history_keeps_newest {α : Type} (limit : Nat) (log : List (Int64 × List α)) :
    let run := (History.new .numeric limit).pushes log
    ∃ keys : List Int64, run.1 = keys.map (fun key => .ok (.numeric key.toInt)) ∧
      List.Forall₂ (fun push key => push.1 ≤ key) log keys ∧
      (keys.Pairwise fun earlier later => earlier < Int64.maxValue → earlier < later) ∧
      run.2.size ≤ max limit 1 ∧
      ((∀ key ∈ keys.dropLast, key < Int64.maxValue) →
        run.2.keys = (keys.map fun key => .numeric key.toInt).rtake (max limit 1) ∧
        run.2.rows = ((History.filed keys log).rtake (max limit 1)).flatMap fun e =>
          e.2.map fun row => (e.1, row)) := by
  obtain ⟨keys, hanswers, hr, hcapacity⟩ := History.exists_retains_pushes limit log
  refine ⟨keys, hanswers, hr.clock, hr.rising, hcapacity ▸ hr.size, fun hmax => ?_⟩
  have hentries := hr.entries hmax
  have hlength : keys.length = log.length := hr.clock.length_eq.symm
  rw [hcapacity] at hentries
  constructor
  · rw [History.keys, hentries, History.map_rtake, History.map_fst_filed hlength]
  · rw [History.rows, hentries]

/-- A clock that stands still and then goes back. -/
theorem numeric_history_keeps_newest_backwards :
    let run := (History.new .numeric 2).pushes [(42, ["a"]), (42, ["b", "c"]), (7, ["d"])]
    (∀ key ∈ [(42 : Int64), 43], key < Int64.maxValue) ∧
      run.2.keys = [.numeric 43, .numeric 44] ∧
      run.2.rows = [(.numeric 43, "b"), (.numeric 43, "c"), (.numeric 44, "d")] := by
  have hmax : ∀ key ∈ [(42 : Int64), 43], key < Int64.maxValue :=
    List.forall_mem_cons.2 ⟨by decide, List.forall_mem_singleton.2 (by decide)⟩
  obtain ⟨keys, hanswers, -, -, -, hheld⟩ := numeric_history_keeps_newest 2
    [(42, ["a"]), (42, ["b", "c"]), (7, ["d"])]
  have hinj : Function.Injective fun key : Int64 =>
      (.ok (.numeric key.toInt) : Except KeyCollision OrderKey) :=
    fun _ _ h => Int64.toInt_inj.1 (OrderKey.numeric.inj (Except.ok.inj h))
  have hkeys : keys = [42, 43, 44] := List.map_injective_iff.2 hinj (hanswers.symm.trans rfl)
  rw [hkeys] at hheld
  exact ⟨hmax, hheld hmax⟩

end CallMetrics
