import CallMetrics.Metric.Registry

/-! The table of a registry and the reading of one name. Both refresh what they show, which changes
nothing that can be read at the same time (`refreshAll_carryOut`). Main statement: the rows are in strict
order, the reading of a name is the first of its rows, and reads leave all rows and all metrics as
they are. -/

namespace CallMetrics

namespace Dict
variable {α : Type}

/-- At most one entry has a given key. -/
theorem filter_key {k : String} {es : List (String × α)} (h : es.Pairwise (·.1 < ·.1)) :
    es.filter (·.1 = k) = (find? k es).toList.map (k, ·) := by
  induction es with
  | nil => rfl
  | cons e rest ih =>
    obtain ⟨hlt, hpair⟩ := List.pairwise_cons.1 h
    by_cases hk : k = e.1
    · have hrest : find? k rest = none := find?_eq_none_of_lt (hk ▸ hlt)
      rw [List.filter_cons_of_pos (by simp [hk]), ih hpair, hrest, find?, if_pos hk, hk]
      rfl
    · rw [List.filter_cons_of_neg (by simpa using Ne.symm hk), ih hpair, find?, if_neg hk]

/-- To change what is stored under a key, if only for what is shown, changes nothing that is shown. -/
theorem map_modify {β : Type} {d : Dict α} {k : String} {v : α} (hv : d.get? k = some v)
    {g : String → α → β} {f : Option α → α} (hf : g k (f (some v)) = g k v) :
    (d.modify k f).map g = d.map g := by
  refine ext_get? fun x => ?_
  rw [get?_map, get?_map, modify, get?_insert]
  split
  · rename_i hx
    rw [hx, hv, Option.map_some, Option.map_some, hf]
  · rfl

theorem map_map_self {d : Dict α} {f : String → α → α} (hf : ∀ k v, f k (f k v) = f k v) :
    (d.map f).map f = d.map f := by
  refine ext_get? fun k => ?_
  rw [get?_map, get?_map, Option.map_map]
  exact Option.map_congr fun v _ => hf k v

end Dict

theorem MetricFamily.rank_inj {f g : MetricFamily} (h : f.rank = g.rank) : f = g := by
  cases f <;> cases g <;> first | rfl | cases h

/-- By name, and by family among those of one name. -/
def MetricReading.Before (a b : MetricReading) : Prop :=
  a.name.text < b.name.text ∨ a.name = b.name ∧ a.family.rank < b.family.rank

namespace Registry

theorem rowLE_iff {a b : MetricReading} : rowLE a b = true ↔
    a.name.text < b.name.text ∨ a.name = b.name ∧ a.family.rank ≤ b.family.rank := by
  simp [rowLE]

theorem rowLE_trans (a b c : MetricReading) (hab : rowLE a b = true) (hbc : rowLE b c = true) :
    rowLE a c = true := by
  rw [rowLE_iff] at *
  rcases hab with hab | ⟨hab, hrank⟩
  · rcases hbc with hbc | ⟨hbc, -⟩
    · exact .inl (String.lt_trans hab hbc)
    · exact .inl (hbc ▸ hab)
  · rcases hbc with hbc | ⟨hbc, hrank'⟩
    · exact .inl (hab ▸ hbc)
    · exact .inr ⟨hab.trans hbc, Nat.le_trans hrank hrank'⟩

theorem rowLE_total (a b : MetricReading) : (rowLE a b || rowLE b a) = true := by
  rw [Bool.or_eq_true, rowLE_iff, rowLE_iff]
  by_cases hname : a.name = b.name
  · rcases Nat.le_total a.family.rank b.family.rank with hle | hle
    · exact .inl (.inr ⟨hname, hle⟩)
    · exact .inr (.inr ⟨hname.symm, hle⟩)
  · have htext : a.name.text ≠ b.name.text := fun h => hname (MetricKey.eq_of_text h)
    by_cases hlt : a.name.text < b.name.text
    · exact .inl (.inl hlt)
    · exact .inr (.inl (Dict.lt_of_not_lt_of_ne hlt htext))

theorem before_of_rowLE {a b : MetricReading} (h : rowLE a b = true)
    (hne : ¬(a.name = b.name ∧ a.family = b.family)) : a.Before b := by
  rcases rowLE_iff.1 h with hlt | ⟨hname, hle⟩
  · exact .inl hlt
  · have hrank : a.family.rank ≠ b.family.rank := fun h => hne ⟨hname, MetricFamily.rank_inj h⟩
    exact .inr ⟨hname, Nat.lt_of_le_of_ne hle hrank⟩

theorem not_before_of_before {a b : MetricReading} (h : a.Before b) : ¬b.Before a := by
  rintro (hlt | ⟨hname, hrank⟩)
  · rcases h with hlt' | ⟨hname, -⟩
    · exact String.lt_irrefl _ (String.lt_trans hlt hlt')
    · rw [hname] at hlt
      exact String.lt_irrefl _ hlt
  · rcases h with hlt' | ⟨-, hrank'⟩
    · rw [hname] at hlt'
      exact String.lt_irrefl _ hlt'
    · exact Nat.lt_asymm hrank hrank'

variable (r : Registry) (now : Int64)

/-- The rows of the table before they are sorted. -/
def unsorted : List MetricReading :=
  r.averages.entries.map (fun e => e.2.reading ⟨e.1⟩) ++
    r.points.entries.map (fun e => e.2.reading ⟨e.1⟩) ++
    r.counters.entries.map (fun e => e.2.reading ⟨e.1⟩)

theorem perm_rows : r.rows.Perm r.unsorted := List.mergeSort_perm _ _

theorem unsorted_ne : r.unsorted.Pairwise fun a b => ¬(a.name = b.name ∧ a.family = b.family) := by
  have hfamily {α : Type} (d : Dict α) (row : MetricKey → α → MetricReading)
      (hname : ∀ name a, (row name a).name = name) :
      (d.entries.map fun e => row ⟨e.1⟩ e.2).Pairwise
        fun a b => ¬(a.name = b.name ∧ a.family = b.family) := by
    refine List.pairwise_map.2 ((List.pairwise_map.1 d.nodup_keys).imp fun hne hsame => hne ?_)
    rw [hname, hname] at hsame
    exact MetricKey.mk.inj hsame.1
  rw [unsorted, List.pairwise_append, List.pairwise_append]
  refine ⟨⟨hfamily _ Average.reading fun _ _ => rfl, hfamily _ Point.reading fun _ _ => rfl, ?_⟩,
    hfamily _ Counter.reading fun _ _ => rfl, ?_⟩
  · rintro a ha b hb ⟨-, hsame⟩
    obtain ⟨e, -, rfl⟩ := List.mem_map.1 ha
    obtain ⟨f, -, rfl⟩ := List.mem_map.1 hb
    cases hsame
  · rintro a ha b hb ⟨-, hsame⟩
    obtain ⟨f, -, rfl⟩ := List.mem_map.1 hb
    rcases List.mem_append.1 ha with ha | ha
    · obtain ⟨e, -, rfl⟩ := List.mem_map.1 ha
      cases hsame
    · obtain ⟨e, -, rfl⟩ := List.mem_map.1 ha
      cases hsame

theorem rows_strict : r.rows.Pairwise MetricReading.Before := by
  have hsorted := List.pairwise_mergeSort rowLE_trans rowLE_total r.unsorted
  have hne := (r.perm_rows.pairwise_iff fun h hsame => h ⟨hsame.1.symm, hsame.2.symm⟩).2 r.unsorted_ne
  exact (hsorted.and hne).imp fun h => before_of_rowLE h.1 h.2

/-- The rows of one name, at most one for each family. -/
def rowsOf (key : MetricKey) : List MetricReading :=
  ((r.averages.get? key.text).map (Average.reading key)).toList ++
    (((r.points.get? key.text).map (Point.reading key)).toList ++
      ((r.counters.get? key.text).map (Counter.reading key)).toList)

theorem filter_readings {α : Type} (d : Dict α) (row : MetricKey → α → MetricReading)
    (hname : ∀ name a, (row name a).name = name) (key : MetricKey) :
    (d.entries.map fun e => row ⟨e.1⟩ e.2).filter (·.name = key) =
      ((d.get? key.text).map (row key)).toList := by
  have hkey : (fun e : String × α => decide ((row ⟨e.1⟩ e.2).name = key)) =
      fun e => decide (e.1 = key.text) := by
    funext e
    rw [hname]
    cases key
    simp
  rw [List.filter_map, Function.comp_def, hkey, Dict.filter_key d.sorted, List.map_map,
    ← Option.toList_map]
  rfl

theorem filter_unsorted (key : MetricKey) : r.unsorted.filter (·.name = key) = r.rowsOf key := by
  rw [unsorted, List.filter_append, List.filter_append, List.append_assoc,
    filter_readings r.averages Average.reading fun _ _ => rfl,
    filter_readings r.points Point.reading fun _ _ => rfl,
    filter_readings r.counters Counter.reading fun _ _ => rfl]
  rfl

theorem rowsOf_strict (key : MetricKey) : (r.rowsOf key).Pairwise MetricReading.Before := by
  rw [rowsOf]
  cases r.averages.get? key.text <;> cases r.points.get? key.text <;>
    cases r.counters.get? key.text <;>
    simp [MetricReading.Before, Average.reading, Point.reading, Counter.reading, MetricFamily.rank]

theorem filter_rows (key : MetricKey) : r.rows.filter (·.name = key) = r.rowsOf key := by
  refine List.Perm.eq_of_pairwise (fun a b _ _ hab hba => absurd hba (not_before_of_before hab))
    (r.rows_strict.filter _) (r.rowsOf_strict key) ?_
  rw [← r.filter_unsorted]
  exact r.perm_rows.filter _

theorem find?_rows (key : MetricKey) : r.rows.find? (·.name = key) =
    ((r.averages.get? key.text).map (Average.reading key)).or
      (((r.points.get? key.text).map (Point.reading key)).or
        ((r.counters.get? key.text).map (Counter.reading key))) := by
  rw [← List.head?_filter, filter_rows, rowsOf]
  simp

theorem reading?_eq_find? (key : MetricKey) :
    (r.reading? key now).1 = (r.readings now).1.find? (·.name = key) := by
  rw [reading?_fst, readings, find?_rows, refreshAll, Dict.get?_map, Dict.get?_map, Option.map_map,
    Option.map_map]
  rfl

end Registry

/-- The ways to read a registry: all of it, a name in it, or a metric of one family, as a whole or a
figure of it. -/
inductive RegistryRead
  | table
  | row (key : MetricKey)
  | average (key : MetricKey)
  | figure (key : MetricKey) (figure : Figure)
  | point (key : MetricKey)
  | pointValue (key : MetricKey)
  | counter (key : MetricKey)
  | counterValue (key : MetricKey)
  deriving DecidableEq

namespace RegistryRead

def carryOut (now : Int64) : RegistryRead → Registry → Registry
  | table, r => (r.readings now).2
  | row key, r => (r.reading? key now).2
  | average key, r => (r.average key now).2
  | figure key asked, r => (r.askAverage key now asked).2
  | point key, r => (r.point key now).2
  | pointValue key, r => (r.askPoint key now).2
  | counter key, r => (r.counter key).2
  | counterValue key, r => (r.askCounter key).2

/-- The metric is there that is read; the table and a name in it can always be. -/
def finds (r : Registry) : RegistryRead → Bool
  | table | row _ => true
  | average key | figure key _ => r.averages.contains key.text
  | point key | pointValue key => r.points.contains key.text
  | counter key | counterValue key => r.counters.contains key.text

end RegistryRead

namespace Registry
variable {r r' : Registry} {now : Int64} {key : MetricKey}

theorem refreshAll_refreshAll : (r.refreshAll now).refreshAll now = r.refreshAll now := by
  simp only [refreshAll]
  rw [Dict.map_map_self fun _ => Average.refresh_self r.window now,
    Dict.map_map_self fun _ => Point.refresh_self r.window now]

theorem refreshAll_average (h : r.averages.contains key.text = true) :
    (r.average key now).2.refreshAll now = r.refreshAll now := by
  obtain ⟨a, ha⟩ := Option.isSome_iff_exists.1 h
  simp only [average, refreshAll, onAverage]
  rw [Dict.map_modify ha (Average.refresh_self r.window now a)]

theorem refreshAll_point (h : r.points.contains key.text = true) :
    (r.point key now).2.refreshAll now = r.refreshAll now := by
  obtain ⟨p, hp⟩ := Option.isSome_iff_exists.1 h
  simp only [point, refreshAll, onPoint]
  rw [Dict.map_modify hp (Point.refresh_self r.window now p)]

theorem counter_of_contains (h : r.counters.contains key.text = true) : (r.counter key).2 = r := by
  obtain ⟨c, hc⟩ := Option.isSome_iff_exists.1 h
  simp only [counter, onCounter, Dict.modify]
  rw [Dict.insert_get? (by rw [hc]; rfl)]

theorem refreshAll_reading? (key : MetricKey) :
    (r.reading? key now).2.refreshAll now = r.refreshAll now := by
  rw [reading?]
  split
  · exact refreshAll_average ‹_›
  · split
    · exact refreshAll_point ‹_›
    · rfl

/-- A read changes nothing that a read at the same time can see. -/
theorem refreshAll_carryOut (read : RegistryRead) (h : read.finds r = true) :
    (read.carryOut now r).refreshAll now = r.refreshAll now := by
  cases read with
  | table => exact refreshAll_refreshAll
  | row key => exact refreshAll_reading? key
  | average key => exact refreshAll_average h
  | figure key asked =>
    rw [RegistryRead.carryOut, askAverage_eq]
    exact refreshAll_average h
  | point key => exact refreshAll_point h
  | pointValue key =>
    rw [RegistryRead.carryOut, askPoint_eq]
    exact refreshAll_point h
  | counter key | counterValue key => exact congrArg (refreshAll · now) (counter_of_contains h)

theorem finds_refreshAll (now : Int64) (read : RegistryRead) :
    read.finds (r.refreshAll now) = read.finds r := by
  cases read <;> simp [RegistryRead.finds, refreshAll, Dict.contains]

def afterReads (now : Int64) (reads : List RegistryRead) (r : Registry) : Registry :=
  reads.foldl (fun r read => read.carryOut now r) r

theorem refreshAll_afterReads {reads : List RegistryRead}
    (h : ∀ read ∈ reads, read.finds r = true) :
    (r.afterReads now reads).refreshAll now = r.refreshAll now := by
  induction reads generalizing r with
  | nil => rfl
  | cons read rest ih =>
    have hread : (read.carryOut now r).refreshAll now = r.refreshAll now :=
      refreshAll_carryOut read (h read (List.mem_cons_self ..))
    refine (ih fun other hother => ?_).trans hread
    rw [← finds_refreshAll now, hread, finds_refreshAll]
    exact h other (List.mem_cons_of_mem _ hother)

end Registry

/-- Whatever was done with a registry before: the rows of its table come in strict order, each metric has
one, and the reading of a name is the first of its rows. However often and in whatever order it is then
read at one time, this stays so, no metric comes into being and no counter changes. -/
theorem table_and_lookup_agree (r : Registry) (now : Int64) :
    (r.readings now).1.Pairwise MetricReading.Before ∧
      r.size = (r.readings now).1.length ∧
      (∀ key, (r.reading? key now).1 = (r.readings now).1.find? (·.name = key)) ∧
      ∀ reads : List RegistryRead, (∀ read ∈ reads, read.finds r = true) →
        let later := r.afterReads now reads
        (later.readings now).1 = (r.readings now).1 ∧
          (∀ key, (later.reading? key now).1 = (r.reading? key now).1) ∧
          later.averages.keys = r.averages.keys ∧ later.points.keys = r.points.keys ∧
          later.counters = r.counters := by
  refine ⟨(r.refreshAll now).rows_strict, ?_, r.reading?_eq_find? now, fun reads hreads => ?_⟩
  · exact ((r.refreshAll now).length_rows.trans (r.size_refreshAll now)).symm
  intro later
  have hsame : later.refreshAll now = r.refreshAll now := Registry.refreshAll_afterReads hreads
  have htable : (later.readings now).1 = (r.readings now).1 := congrArg Registry.rows hsame
  have haverages := congrArg (·.averages.keys) hsame
  have hpoints := congrArg (·.points.keys) hsame
  simp only [Registry.refreshAll, Dict.keys_map] at haverages hpoints
  refine ⟨htable, fun key => ?_, haverages, hpoints, congrArg (·.counters) hsame⟩
  rw [Registry.reading?_eq_find?, Registry.reading?_eq_find?, htable]

/-- One name in all three families, the first two of which expire at time 13. -/
def Registry.sharedName : Registry :=
  (((Registry.empty (.ofMillis 10)).updateAverage ⟨"a"⟩ 3 5).updatePoint ⟨"a"⟩ 3 7).addCount ⟨"a"⟩ 2

theorem table_and_lookup_agree_sharedName :
    (∀ read ∈ [RegistryRead.row ⟨"a"⟩, .figure ⟨"a"⟩ .low, .table, .row ⟨"b"⟩, .counter ⟨"a"⟩],
        read.finds .sharedName = true) ∧
      ((Registry.sharedName.afterReads 13 [.row ⟨"a"⟩, .figure ⟨"a"⟩ .low, .table, .row ⟨"b"⟩,
        .counter ⟨"a"⟩]).reading? ⟨"a"⟩ 13).1 = some ⟨⟨"a"⟩, .average, 0, 0, 0, 0⟩ := by
  have hfinds : ∀ read ∈ [RegistryRead.row ⟨"a"⟩, .figure ⟨"a"⟩ .low, .table, .row ⟨"b"⟩,
      .counter ⟨"a"⟩], read.finds .sharedName = true := by decide
  obtain ⟨-, -, -, hreads⟩ := table_and_lookup_agree .sharedName 13
  exact ⟨hfinds, ((hreads _ hfinds).2.1 ⟨"a"⟩).trans (by decide)⟩

end CallMetrics
