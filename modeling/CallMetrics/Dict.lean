/-! Finite maps from texts, kept sorted by key. Two maps with the same look-ups are equal
(`Dict.ext_get?`), and `entries` lists the keys in increasing order, each once. -/

namespace CallMetrics

/-- A finite map from texts; the entries stand in increasing order of their keys. -/
structure Dict (α : Type) where
  entries : List (String × α)
  sorted : entries.Pairwise (·.1 < ·.1)

namespace Dict
variable {α β : Type}

/-- Puts an entry at its place in a sorted list, in place of an entry with the same key. -/
def insertEntry (k : String) (v : α) : List (String × α) → List (String × α)
  | [] => [(k, v)]
  | e :: rest =>
    if k < e.1 then (k, v) :: e :: rest
    else if k = e.1 then (k, v) :: rest
    else e :: insertEntry k v rest

theorem mem_insertEntry {k : String} {v : α} {es : List (String × α)} {x : String × α}
    (h : x ∈ insertEntry k v es) : x = (k, v) ∨ x ∈ es := by
  induction es with
  | nil => simpa [insertEntry] using h
  | cons e rest ih =>
    simp only [insertEntry] at h
    split at h
    · simpa using h
    · split at h
      · rcases List.mem_cons.1 h with h | h
        · exact .inl h
        · exact .inr (List.mem_cons_of_mem _ h)
      · rcases List.mem_cons.1 h with h | h
        · exact .inr (by simp [h])
        · rcases ih h with h | h
          · exact .inl h
          · exact .inr (List.mem_cons_of_mem _ h)

theorem lt_of_not_lt_of_ne {a b : String} (h : ¬a < b) (hne : a ≠ b) : b < a := by
  rcases String.not_lt.1 h with hle
  by_cases hlt : b < a
  · exact hlt
  · exact absurd (String.le_antisymm (String.not_lt.1 hlt) hle) hne

theorem pairwise_insertEntry {k : String} {v : α} {es : List (String × α)}
    (h : es.Pairwise (·.1 < ·.1)) : (insertEntry k v es).Pairwise (·.1 < ·.1) := by
  induction es with
  | nil => simp [insertEntry]
  | cons e rest ih =>
    obtain ⟨hrest, hpair⟩ := List.pairwise_cons.1 h
    simp only [insertEntry]
    split
    · rename_i hk
      refine List.pairwise_cons.2 ⟨fun x hx => ?_, h⟩
      rcases List.mem_cons.1 hx with rfl | hx
      · exact hk
      · exact String.lt_trans hk (hrest x hx)
    · split
      · rename_i hk
        exact List.pairwise_cons.2 ⟨fun x hx => hk ▸ hrest x hx, hpair⟩
      · rename_i hlt hne
        refine List.pairwise_cons.2 ⟨fun x hx => ?_, ih hpair⟩
        rcases mem_insertEntry hx with rfl | hx
        · exact lt_of_not_lt_of_ne hlt hne
        · exact hrest x hx

def empty : Dict α := ⟨[], .nil⟩

instance : EmptyCollection (Dict α) := ⟨empty⟩
instance : Inhabited (Dict α) := ⟨empty⟩

def insert (d : Dict α) (k : String) (v : α) : Dict α :=
  ⟨insertEntry k v d.entries, pairwise_insertEntry d.sorted⟩

def find? (k : String) : List (String × α) → Option α
  | [] => none
  | e :: rest => if k = e.1 then some e.2 else find? k rest

def get? (d : Dict α) (k : String) : Option α := find? k d.entries

def contains (d : Dict α) (k : String) : Bool := (d.get? k).isSome

def keys (d : Dict α) : List String := d.entries.map (·.1)

def size (d : Dict α) : Nat := d.entries.length

def isEmpty (d : Dict α) : Bool := d.entries.isEmpty

/-- The map of a list of entries; of several entries with one key the last one counts. -/
def ofList (es : List (String × α)) : Dict α := es.foldl (fun d e => d.insert e.1 e.2) empty

def merge (d e : Dict α) : Dict α := e.entries.foldl (fun acc x => acc.insert x.1 x.2) d

def map (f : String → α → β) (d : Dict α) : Dict β :=
  ⟨d.entries.map fun e => (e.1, f e.1 e.2), by
    rw [List.pairwise_map]
    exact d.sorted⟩

def modify (d : Dict α) (k : String) (f : Option α → α) : Dict α := d.insert k (f (d.get? k))

theorem find?_insertEntry (k k' : String) (v : α) (es : List (String × α)) :
    find? k' (insertEntry k v es) = if k' = k then some v else find? k' es := by
  induction es with
  | nil => simp [insertEntry, find?]
  | cons e rest ih =>
    simp only [insertEntry]
    split
    · simp [find?]
    · split
      · rename_i hk
        subst hk
        simp only [find?]
        split <;> rfl
      · rename_i hne
        simp only [find?, ih]
        by_cases h1 : k' = e.1
        · simp [h1, Ne.symm hne]
        · simp [h1]

@[simp] theorem get?_insert (d : Dict α) (k k' : String) (v : α) :
    (d.insert k v).get? k' = if k' = k then some v else d.get? k' :=
  find?_insertEntry k k' v d.entries

@[simp] theorem get?_empty (k : String) : (∅ : Dict α).get? k = none := rfl

theorem find?_map (f : String → α → β) (k : String) (es : List (String × α)) :
    find? k (es.map fun e => (e.1, f e.1 e.2)) = (find? k es).map (f k) := by
  induction es with
  | nil => rfl
  | cons e rest ih =>
    simp only [List.map_cons, find?]
    split
    · rename_i h
      simp [h]
    · exact ih

@[simp] theorem get?_map (f : String → α → β) (d : Dict α) (k : String) :
    (d.map f).get? k = (d.get? k).map (f k) := find?_map f k d.entries

@[simp] theorem size_map (f : String → α → β) (d : Dict α) : (d.map f).size = d.size :=
  List.length_map ..

theorem length_keys (d : Dict α) : d.keys.length = d.size := List.length_map ..

@[simp] theorem keys_map (f : String → α → β) (d : Dict α) : (d.map f).keys = d.keys :=
  List.map_map ..

theorem find?_eq_none_of_lt {k : String} {es : List (String × α)} (h : ∀ e ∈ es, k < e.1) :
    find? k es = none := by
  induction es with
  | nil => rfl
  | cons e rest ih =>
    have hne : k ≠ e.1 := fun he => String.lt_irrefl k (by simpa [← he] using h e (by simp))
    simp only [find?, if_neg hne]
    exact ih fun x hx => h x (List.mem_cons_of_mem _ hx)

/-- A sorted list holds no key before its first one. -/
theorem not_lt_of_find?_eq_some {e : String × α} {rest : List (String × α)} {k : String} {v : α}
    (h : (e :: rest).Pairwise (·.1 < ·.1)) (hk : find? k (e :: rest) = some v) : ¬k < e.1 := by
  intro hlt
  have hmin : ∀ x ∈ e :: rest, k < x.1 :=
    List.forall_mem_cons.2 ⟨hlt, fun x hx => String.lt_trans hlt ((List.pairwise_cons.1 h).1 x hx)⟩
  rw [find?_eq_none_of_lt hmin] at hk
  cases hk

theorem entries_eq_of_find? {es fs : List (String × α)} (he : es.Pairwise (·.1 < ·.1))
    (hf : fs.Pairwise (·.1 < ·.1)) (h : ∀ k, find? k es = find? k fs) : es = fs := by
  induction es generalizing fs with
  | nil =>
    cases fs with
    | nil => rfl
    | cons f rest => simpa [find?] using h f.1
  | cons e rest ih =>
    cases fs with
    | nil => simpa [find?] using h e.1
    | cons f rest' =>
      have hfirst : find? e.1 (f :: rest') = some e.2 := by rw [← h, find?, if_pos rfl]
      have hfirst' : find? f.1 (e :: rest) = some f.2 := by rw [h, find?, if_pos rfl]
      have hkey : e.1 = f.1 := Decidable.byContradiction fun hne =>
        not_lt_of_find?_eq_some he hfirst'
          (lt_of_not_lt_of_ne (not_lt_of_find?_eq_some hf hfirst) hne)
      have hval : e = f := by
        rw [find?, if_pos hkey] at hfirst
        exact Prod.ext hkey (Option.some.inj hfirst).symm
      subst hval
      obtain ⟨hlt, hpair⟩ := List.pairwise_cons.1 he
      obtain ⟨hlt', hpair'⟩ := List.pairwise_cons.1 hf
      refine congrArg (e :: ·) (ih hpair hpair' fun k => ?_)
      by_cases hk : k = e.1
      · rw [find?_eq_none_of_lt (hk ▸ hlt), find?_eq_none_of_lt (hk ▸ hlt')]
      · simpa [find?, hk] using h k

theorem ext_entries {d e : Dict α} (h : d.entries = e.entries) : d = e := by
  cases d
  cases e
  congr

/-- Maps with the same look-ups are equal. -/
theorem ext_get? {d e : Dict α} (h : ∀ k, d.get? k = e.get? k) : d = e :=
  ext_entries (entries_eq_of_find? d.sorted e.sorted h)

theorem find?_append (k : String) (es fs : List (String × α)) :
    find? k (es ++ fs) = (find? k es).or (find? k fs) := by
  induction es with
  | nil => rfl
  | cons e es ih =>
    simp only [List.cons_append, find?]
    split
    · rfl
    · exact ih

theorem find?_eq_none_iff {k : String} {es : List (String × α)} :
    find? k es = none ↔ k ∉ es.map (·.1) := by
  induction es with
  | nil => simp [find?]
  | cons e es ih =>
    rw [find?]
    by_cases hk : k = e.1
    · simp [hk]
    · simp [hk, ih]

theorem find?_foldl_insert (es : List (String × α)) (d : Dict α) (k : String) :
    (es.foldl (fun acc x => acc.insert x.1 x.2) d).get? k =
      (find? k es.reverse).or (d.get? k) := by
  induction es generalizing d with
  | nil => rfl
  | cons e rest ih =>
    simp only [List.foldl_cons, ih, List.reverse_cons, find?_append, find?, get?_insert]
    cases find? k rest.reverse <;> by_cases hk : k = e.1 <;> simp [hk]

theorem find?_eq_some_of_mem {es : List (String × α)} (h : (es.map (·.1)).Nodup) {e : String × α}
    (he : e ∈ es) : find? e.1 es = some e.2 := by
  induction es with
  | nil => cases he
  | cons x rest ih =>
    obtain ⟨hnew, hrest⟩ := List.nodup_cons.1 h
    rcases List.mem_cons.1 he with rfl | he
    · simp [find?]
    · have hne : e.1 ≠ x.1 := fun heq => hnew (List.mem_map.2 ⟨e, he, heq⟩)
      rw [find?, if_neg hne, ih hrest he]

theorem mem_of_find?_eq_some {es : List (String × α)} {k : String} {v : α}
    (h : find? k es = some v) : (k, v) ∈ es := by
  induction es with
  | nil => simp [find?] at h
  | cons x rest ih =>
    simp only [find?] at h
    split at h
    · rename_i hk
      have hv : x.2 = v := by simpa using h
      rw [hk, ← hv]
      simp
    · exact List.mem_cons_of_mem _ (ih h)

/-- Where no key stands twice, the order of the entries does not matter. -/
theorem find?_eq_some_iff {es : List (String × α)} (h : (es.map (·.1)).Nodup) {k : String} {v : α} :
    find? k es = some v ↔ (k, v) ∈ es :=
  ⟨mem_of_find?_eq_some, find?_eq_some_of_mem h⟩

theorem pairwise_keys (d : Dict α) : d.keys.Pairwise (· < ·) := List.pairwise_map.2 d.sorted

theorem nodup_keys (d : Dict α) : d.keys.Nodup := by
  refine d.pairwise_keys.imp ?_
  rintro k _ hlt rfl
  exact String.lt_irrefl k hlt

theorem get?_eq_some_iff {d : Dict α} {k : String} {v : α} :
    d.get? k = some v ↔ (k, v) ∈ d.entries :=
  find?_eq_some_iff d.nodup_keys

theorem mem_keys_iff {d : Dict α} {k : String} : k ∈ d.keys ↔ ∃ v, d.get? k = some v := by
  simp [keys, get?_eq_some_iff]

/-- A list in which no key stands twice gives a map of just its entries. -/
theorem get?_ofList_eq_some_iff {es : List (String × α)} (h : (es.map (·.1)).Nodup) {k : String}
    {v : α} : (ofList es).get? k = some v ↔ (k, v) ∈ es := by
  have hreverse : (es.reverse.map (·.1)).Nodup := by
    rw [List.map_reverse]
    exact List.pairwise_reverse.2 (h.imp Ne.symm)
  have hempty : (empty : Dict α).get? k = none := rfl
  rw [ofList, find?_foldl_insert, hempty, Option.or_none, find?_eq_some_iff hreverse,
    List.mem_reverse]

theorem ofList_eq_of_perm {d : Dict α} {es : List (String × α)} (h : es.Perm d.entries) :
    ofList es = d := by
  have hdistinct : (es.map (·.1)).Nodup := (h.map Prod.fst).nodup_iff.2 d.nodup_keys
  exact ext_get? fun _ => Option.ext fun _ =>
    ((get?_ofList_eq_some_iff hdistinct).trans h.mem_iff).trans get?_eq_some_iff.symm

@[simp] theorem ofList_entries (d : Dict α) : ofList d.entries = d := ofList_eq_of_perm (.refl _)

@[simp] theorem get?_merge (d e : Dict α) (k : String) :
    (d.merge e).get? k = (e.get? k).or (d.get? k) := by
  have he : (find? k e.entries.reverse).or none = e.get? k := by
    rw [← get?_empty (α := α) k, ← find?_foldl_insert]
    exact congrArg (get? · k) (ofList_entries e)
  rw [merge, find?_foldl_insert, ← he, Option.or_none]

theorem insert_get? {d : Dict α} {k : String} {v : α} (h : d.get? k = some v) : d.insert k v = d := by
  refine ext_get? fun x => ?_
  rw [get?_insert]
  split
  · rename_i hx
    rw [hx, h]
  · rfl

theorem optionRel_map {α' β' : Type} {R : α → β → Prop} {S : α' → β' → Prop} {f : α → α'}
    {g : β → β'} {o : Option α} {o' : Option β} (h : Option.Rel R o o')
    (hfg : ∀ a b, R a b → S (f a) (g b)) : Option.Rel S (o.map f) (o'.map g) := by
  cases h with
  | some hab => exact .some (hfg _ _ hab)
  | none => exact .none

theorem eq_of_optionRel {o o' : Option α} (h : Option.Rel Eq o o') : o = o' := by
  cases h with
  | some h => exact congrArg some h
  | none => rfl

@[simp] theorem map_id (d : Dict α) : d.map (fun _ a => a) = d :=
  ext_get? fun k => by simp

/-- Both maps have the same keys, with related values under each. -/
def Matches (R : α → β → Prop) (d : Dict α) (e : Dict β) : Prop :=
  ∀ k, Option.Rel R (d.get? k) (e.get? k)

section
variable {R : α → β → Prop} {d : Dict α} {e : Dict β}

theorem Matches.empty : Matches R (∅ : Dict α) ∅ := fun _ => .none

theorem Matches.mono {S : α → β → Prop} (h : Matches R d e) (hsub : ∀ a b, R a b → S a b) :
    Matches S d e :=
  fun k => by simpa using optionRel_map (f := id) (g := id) (h k) hsub

theorem Matches.insert (h : Matches R d e) (k : String) {a : α} {b : β} (hab : R a b) :
    Matches R (d.insert k a) (e.insert k b) := by
  intro x
  rw [get?_insert, get?_insert]
  split
  · exact .some hab
  · exact h x

theorem Matches.map {α' β' : Type} {S : α' → β' → Prop} {f : String → α → α'} {g : String → β → β'}
    (h : Matches R d e) (hfg : ∀ k a b, R a b → S (f k a) (g k b)) :
    Matches S (d.map f) (e.map g) := by
  intro k
  rw [get?_map, get?_map]
  exact optionRel_map (h k) (hfg k)

theorem Matches.map_right {β' : Type} {S : α → β' → Prop} {g : String → β → β'} (h : Matches R d e)
    (hg : ∀ k a b, R a b → S a (g k b)) : Matches S d (e.map g) := by
  simpa using h.map (f := fun _ a => a) hg

theorem Matches.contains (h : Matches R d e) (k : String) : d.contains k = e.contains k := by
  have hk := h k
  rw [Dict.contains, Dict.contains]
  generalize d.get? k = o, e.get? k = o' at hk ⊢
  cases hk <;> rfl

theorem Matches.eq {d e : Dict α} (h : Matches Eq d e) : d = e :=
  ext_get? fun k => eq_of_optionRel (h k)

end

end Dict
end CallMetrics
