import CallMetrics.Dict
import CallMetrics.Proofs.Metric.Retention
import CallMetrics.Proofs.Metric.Stamps

/-! What a history with time stamps admits. It holds the pushes that it retains, in the order of the
bytes of their stamps. A push is refused if one of them came on the same second of a day; all
others are admitted, and if the history is full the one with the least stamp goes, which need not be
the oldest one (`Admits`). A run of pushes follows these rules from push to push (`Course`). -/

namespace CallMetrics

namespace OrderKey

/-- The key of a push at a moment, in a history with time stamps. -/
def ofMoment (now : Int64) : OrderKey := .stamp (timeOfDay now.toInt)

def bytes (k : OrderKey) : List UInt8 := textBytes k.text

theorem ofMoment_eq_iff {a b : Int64} : ofMoment a = ofMoment b ↔ SameSecond a b := by
  rw [sameSecond_iff, ofMoment, ofMoment, OrderKey.stamp.injEq]

end OrderKey

namespace History
open OrderKey
variable {α : Type}

/-- What becomes of a push to a history that holds some pushes. -/
inductive Admits (capacity : Nat) (held : List (Int64 × List α)) (push : Int64 × List α) :
    Except KeyCollision OrderKey → List (Int64 × List α) → Prop
  | refused (hsame : ∃ kept ∈ held, SameSecond kept.1 push.1) :
      Admits capacity held push (.error ⟨ofMoment push.1⟩) held
  | added {after : List (Int64 × List α)} (hfree : ∀ kept ∈ held, ¬SameSecond kept.1 push.1)
      (hroom : held.length < capacity) (hafter : after.Perm (push :: held)) :
      Admits capacity held push (.ok (ofMoment push.1)) after
  | displaced {gone : Int64 × List α} {after : List (Int64 × List α)}
      (hfree : ∀ kept ∈ held, ¬SameSecond kept.1 push.1) (hfull : held.length = capacity)
      (hgone : gone ∈ held)
      (hleast : ∀ kept ∈ held, (ofMoment gone.1).bytes ≤ (ofMoment kept.1).bytes)
      (hafter : (gone :: after).Perm (push :: held)) :
      Admits capacity held push (.ok (ofMoment push.1)) after

/-- Pushes one after another to a history that holds none at first, with their answers and the
pushes that are held after them. -/
inductive Course (capacity : Nat) : List (Int64 × List α) →
    List (Except KeyCollision OrderKey) → List (Int64 × List α) → Prop
  | start : Course capacity [] [] []
  | push {log held after : List (Int64 × List α)} {answers : List (Except KeyCollision OrderKey)}
      {next : Int64 × List α} {answer : Except KeyCollision OrderKey}
      (h : Course capacity log answers held) (hadmits : Admits capacity held next answer after) :
      Course capacity (log ++ [next]) (answers ++ [answer]) after

/-- The entry of a push. -/
def stamped (push : Int64 × List α) : OrderKey × List α := (ofMoment push.1, push.2)

/-- The stamp of one push stands before that of another. -/
def Before (a b : Int64 × List α) : Prop := timeOfDay a.1.toInt < timeOfDay b.1.toInt

variable {h : History α} {held : List (Int64 × List α)} {now : Int64}

theorem lt_iff_before {a b : Int64 × List α} :
    (ofMoment a.1).lt (stamped b).1 = true ↔ Before a b := decide_eq_true_iff

theorem Before.of_not {a b : Int64 × List α} (hnot : ¬Before a b) (hother : ¬SameSecond a.1 b.1) :
    Before b a := by
  rw [sameSecond_iff] at hother
  exact Dict.lt_of_not_lt_of_ne hnot hother

/-- A push with a stamp of its own is put at the place of its stamp. -/
theorem exists_insertEntry (snapshot : List α) (hfree : ∀ kept ∈ held, ¬SameSecond kept.1 now)
    (hsorted : held.Pairwise Before) : ∃ after : List (Int64 × List α),
      insertEntry (ofMoment now) snapshot (held.map stamped) = after.map stamped ∧
        after.Perm ((now, snapshot) :: held) ∧ after.Pairwise Before := by
  induction held with
  | nil => exact ⟨[(now, snapshot)], rfl, .refl _, List.pairwise_singleton _ _⟩
  | cons first rest ih =>
    obtain ⟨hfirst, hrest⟩ := List.forall_mem_cons.1 hfree
    obtain ⟨hbefore, hpairwise⟩ := List.pairwise_cons.1 hsorted
    rw [List.map_cons, insertEntry]
    split
    · rename_i hlt
      have hnow : Before (now, snapshot) first := lt_iff_before.1 hlt
      refine ⟨(now, snapshot) :: first :: rest, rfl, .refl _, ?_⟩
      refine List.pairwise_cons.2 ⟨?_, hsorted⟩
      intro kept hkept
      rcases List.mem_cons.1 hkept with rfl | hkept
      · exact hnow
      · exact String.lt_trans hnow (hbefore kept hkept)
    · rename_i hnot
      have hother : ofMoment now ≠ (stamped first).1 :=
        fun heq => hfirst (ofMoment_eq_iff.1 heq.symm)
      have hnow : Before first (now, snapshot) :=
        Before.of_not (mt lt_iff_before.2 hnot) fun hsame => hfirst hsame.symm
      obtain ⟨after, hentries, hperm, hafter⟩ := ih hrest hpairwise
      rw [if_neg hother, hentries]
      refine ⟨first :: after, rfl, (hperm.cons first).trans (.swap _ _ _), ?_⟩
      refine List.pairwise_cons.2 ⟨?_, hafter⟩
      intro kept hkept
      rcases List.mem_cons.1 (hperm.mem_iff.1 hkept) with rfl | hkept
      · exact hnow
      · exact hbefore kept hkept

/-- What a history with time stamps holds. -/
structure Holds (h : History α) (held : List (Int64 × List α)) : Prop where
  kind : h.kind = .lexicalTimestamp
  entries : h.entries = held.map stamped
  sorted : held.Pairwise Before
  size : held.length ≤ h.capacity

theorem holds_new (limit : Nat) : (new .lexicalTimestamp limit : History α).Holds [] :=
  ⟨rfl, rfl, .nil, Nat.zero_le _⟩

theorem push_stamped (hkind : h.kind = .lexicalTimestamp) (now : Int64) (snapshot : List α) :
    h.push now snapshot = if ofMoment now ∈ h.keys then (.error ⟨ofMoment now⟩, h)
      else (.ok (ofMoment now), h.keep (ofMoment now) snapshot) := by
  obtain ⟨kind, limit, entries, last⟩ := h
  cases hkind
  rfl

namespace Holds

theorem keys_eq (hh : h.Holds held) : h.keys = held.map fun push => ofMoment push.1 := by
  rw [keys, hh.entries, List.map_map]
  rfl

theorem mem_keys_iff (hh : h.Holds held) (now : Int64) :
    ofMoment now ∈ h.keys ↔ ∃ kept ∈ held, SameSecond kept.1 now := by
  rw [hh.keys_eq, List.mem_map]
  simp only [ofMoment_eq_iff]

/-- The stamps that are held stand in the order of their bytes. -/
theorem bytes_sorted (hh : h.Holds held) :
    held.Pairwise fun a b => (ofMoment a.1).bytes < (ofMoment b.1).bytes :=
  hh.sorted.imp textBytes_lt

/-- What a full history forgets has the least stamp. -/
theorem bytes_le {first : Int64 × List α} {rest : List (Int64 × List α)}
    (hh : h.Holds (first :: rest)) :
    ∀ kept ∈ first :: rest, (ofMoment first.1).bytes ≤ (ofMoment kept.1).bytes := by
  intro kept hkept
  rcases List.mem_cons.1 hkept with rfl | hkept
  · exact List.le_refl _
  · exact List.le_of_lt ((List.pairwise_cons.1 hh.bytes_sorted).1 kept hkept)

theorem size_eq (hh : h.Holds held) : h.size = held.length := by
  rw [History.size, hh.entries, List.length_map]

/-- With room left a new stamp comes beside the ones that are held. -/
theorem keep_room (hh : h.Holds held) (snapshot : List α) (hroom : held.length < h.capacity)
    (hfree : ∀ kept ∈ held, ¬SameSecond kept.1 now) :
    ∃ after : List (Int64 × List α), after.Perm ((now, snapshot) :: held) ∧
      (h.keep (ofMoment now) snapshot).Holds after := by
  obtain ⟨after, hafter, hperm, hsorted⟩ := exists_insertEntry snapshot hfree hh.sorted
  have hopen : ¬h.capacity ≤ h.size := by
    rw [hh.size_eq]
    exact Nat.not_le.2 hroom
  have hentries : (h.keep (ofMoment now) snapshot).entries = after.map stamped := by
    rw [keep, if_neg hopen, hh.entries]
    exact hafter
  refine ⟨after, hperm, hh.kind, hentries, hsorted, ?_⟩
  rw [hperm.length_eq]
  exact hroom

/-- If there is no room the first stamp gives way. -/
theorem keep_full {first : Int64 × List α} {rest : List (Int64 × List α)}
    (hh : h.Holds (first :: rest)) (snapshot : List α) (hfull : h.capacity ≤ (first :: rest).length)
    (hfree : ∀ kept ∈ rest, ¬SameSecond kept.1 now) :
    ∃ after : List (Int64 × List α), after.Perm ((now, snapshot) :: rest) ∧
      (h.keep (ofMoment now) snapshot).Holds after := by
  obtain ⟨after, hafter, hperm, hsorted⟩ :=
    exists_insertEntry snapshot hfree (List.pairwise_cons.1 hh.sorted).2
  have hclosed : h.capacity ≤ h.size := by
    rw [hh.size_eq]
    exact hfull
  have hentries : (h.keep (ofMoment now) snapshot).entries = after.map stamped := by
    rw [keep, if_pos hclosed, hh.entries]
    exact hafter
  refine ⟨after, hperm, hh.kind, hentries, hsorted, ?_⟩
  rw [hperm.length_eq]
  exact hh.size

theorem push (hh : h.Holds held) (now : Int64) (snapshot : List α) :
    ∃ after, Admits h.capacity held (now, snapshot) (h.push now snapshot).1 after ∧
      (h.push now snapshot).2.Holds after ∧ (h.push now snapshot).2.capacity = h.capacity := by
  rw [push_stamped hh.kind]
  by_cases hsame : ∃ kept ∈ held, SameSecond kept.1 now
  · rw [if_pos ((hh.mem_keys_iff now).2 hsame)]
    exact ⟨held, .refused hsame, hh, rfl⟩
  · rw [if_neg (mt (hh.mem_keys_iff now).1 hsame)]
    have hfree : ∀ kept ∈ held, ¬SameSecond kept.1 now :=
      fun kept hkept hkeptSame => hsame ⟨kept, hkept, hkeptSame⟩
    rcases Nat.lt_or_ge held.length h.capacity with hroom | hfull
    · obtain ⟨after, hperm, hafter⟩ := hh.keep_room snapshot hroom hfree
      exact ⟨after, .added hfree hroom hperm, hafter, rfl⟩
    · cases held with
      | nil =>
        have hcapacity : 1 ≤ h.capacity := Nat.le_max_right _ _
        exact absurd (Nat.le_trans hcapacity hfull) (Nat.not_succ_le_zero 0)
      | cons first rest =>
        have hexact : (first :: rest).length = h.capacity := Nat.le_antisymm hh.size hfull
        have hrest := (List.forall_mem_cons.1 hfree).2
        obtain ⟨after, hperm, hafter⟩ := hh.keep_full snapshot hfull hrest
        have hexchange : (first :: after).Perm ((now, snapshot) :: first :: rest) :=
          (hperm.cons first).trans (.swap _ _ _)
        exact ⟨after, .displaced hfree hexact List.mem_cons_self hh.bytes_le hexchange, hafter, rfl⟩

end Holds

theorem exists_course (limit : Nat) (log : List (Int64 × List α)) :
    ∃ held, Course (max limit 1) log ((new .lexicalTimestamp limit).pushes log).1 held ∧
      ((new .lexicalTimestamp limit).pushes log).2.Holds held ∧
      ((new .lexicalTimestamp limit).pushes log).2.capacity = max limit 1 := by
  induction log using List.reverseRecOn with
  | nil => exact ⟨[], .start, holds_new limit, rfl⟩
  | append_singleton log next ih =>
    obtain ⟨now, snapshot⟩ := next
    obtain ⟨held, hcourse, hholds, hcapacity⟩ := ih
    obtain ⟨after, hadmits, hafter, hsame⟩ := hholds.push now snapshot
    rw [hcapacity] at hadmits hsame
    rw [pushes_concat]
    exact ⟨after, hcourse.push hadmits, hafter, hsame⟩

end History

/-- However the clock reads, pushes to a history with time stamps go by the rules of its course: a push
is refused with its own stamp if one that is held came on the same second of a day; any other
one is held from then on, in the place of the one with the least stamp if as many are held as there
is room for. The history shows what is held, in the order of the bytes of the stamps, and a push
that is refused leaves all of it as it is. -/
theorem lexical_history_course {α : Type} (limit : Nat) (log : List (Int64 × List α)) :
    let run := (History.new .lexicalTimestamp limit).pushes log
    ∃ held, History.Course (max limit 1) log run.1 held ∧
      run.2.entries = held.map (fun push => (.ofMoment push.1, push.2)) ∧
      run.2.keys.Pairwise (fun a b => a.bytes < b.bytes) ∧ run.2.keys.Nodup ∧
      run.2.size ≤ max limit 1 ∧
      ∀ now snapshot,
        ((∃ e, (run.2.push now snapshot).1 = .error e) ↔ ∃ push ∈ held, SameSecond push.1 now) ∧
        ∀ e, (run.2.push now snapshot).1 = .error e →
          e.key = .ofMoment now ∧ e.key ∈ run.2.keys ∧ (run.2.push now snapshot).2 = run.2 := by
  intro run
  obtain ⟨held, hcourse, hholds, hcapacity⟩ := History.exists_course limit log
  have hbytes : run.2.keys.Pairwise fun a b => a.bytes < b.bytes := by
    rw [hholds.keys_eq]
    exact List.pairwise_map.2 hholds.bytes_sorted
  have hdistinct : run.2.keys.Nodup := by
    apply hbytes.imp
    intro a b hlt hsame
    subst hsame
    exact List.lt_irrefl _ hlt
  have hsize : run.2.size ≤ max limit 1 := by
    rw [History.size, hholds.entries, List.length_map, ← hcapacity]
    exact hholds.size
  refine ⟨held, hcourse, hholds.entries, hbytes, hdistinct, hsize, ?_⟩
  intro now snapshot
  rw [← hholds.mem_keys_iff now, History.push_stamped hholds.kind]
  split
  · rename_i hkey
    refine ⟨⟨fun _ => hkey, fun _ => ⟨_, rfl⟩⟩, ?_⟩
    intro e he
    obtain rfl := Except.error.inj he
    exact ⟨rfl, hkey, rfl⟩
  · rename_i hkey
    refine ⟨⟨?_, fun h => absurd h hkey⟩, ?_⟩
    · rintro ⟨e, he⟩
      cases he
    · intro e he
      cases he

/-- A second of the next day has the stamp that the same second of this day has. -/
theorem lexical_history_course_next_day :
    let run := (History.new .lexicalTimestamp 2).pushes [(1000, ["a"])]
    (run.2.push 86401999 ["b"]).1 = .error ⟨.stamp "12:00:01 AM"⟩ ∧
      (run.2.push 86401999 ["b"]).2 = run.2 := by
  intro run
  have hrefused : (run.2.push 86401999 ["b"]).1 = .error ⟨.stamp "12:00:01 AM"⟩ := by
    decide +kernel
  obtain ⟨held, -, -, -, -, -, hnext⟩ := lexical_history_course 2 [(1000, ["a"])]
  obtain ⟨-, -, hunchanged⟩ := (hnext 86401999 ["b"]).2 _ hrefused
  exact ⟨hrefused, hunchanged⟩

end CallMetrics
