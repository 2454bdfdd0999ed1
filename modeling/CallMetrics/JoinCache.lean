import Std.Data.HashMap

/-! A memo of joined texts. For each left part the joined texts are kept by their right part; when
there are more of them than the cap allows, all of that left part are forgotten. Every text that is
computed is a new instance with a number of its own, so that sharing can be seen. What is kept is
what joining would give again, so joining always gives both parts together (`join_text`). Hits and
misses are counted by words, which come back to zero after the last one (`Asked`). -/

namespace CallMetrics

/-- A text that is handed out by reference. -/
structure Shared where
  id : Nat
  text : String
  deriving DecidableEq

structure JoinStats where
  hits : UInt64
  misses : UInt64
  clears : UInt64
  deriving DecidableEq, Repr

abbrev JoinTable := Std.HashMap String (Std.HashMap String Shared)

/-- Every text of a table joins the two parts that it stands under. -/
def JoinTable.Joined (table : JoinTable) : Prop :=
  ∀ left right s, (table.getD left ∅)[right]? = some s → s.text = left ++ right

theorem JoinTable.joined_empty : JoinTable.Joined ∅ := by
  intro left right s h
  simp at h

theorem JoinTable.Joined.forget {table : JoinTable} (h : JoinTable.Joined table) (left : String) :
    JoinTable.Joined (table.insert left ∅) := by
  intro l r s hs
  rw [Std.HashMap.getD_insert] at hs
  split at hs
  · simp at hs
  · exact h l r s hs

theorem JoinTable.Joined.add {table : JoinTable} (h : JoinTable.Joined table) {left right : String}
    {s : Shared} (hs : s.text = left ++ right) :
    JoinTable.Joined (table.alter left fun texts => some ((texts.getD ∅).insert right s)) := by
  intro l r t ht
  rw [Std.HashMap.getD_alter] at ht
  split at ht
  · rename_i hl
    rw [← eq_of_beq hl]
    rw [Option.getD_some, Std.HashMap.getElem?_insert] at ht
    split at ht
    · rename_i hr
      rw [← eq_of_beq hr, ← Option.some.inj ht, hs]
    · rw [← Std.HashMap.getD_eq_getD_getElem?] at ht
      exact h left r t ht
  · exact h l r t ht

structure JoinCache where
  /-- How many texts are kept for one left part, less than one counting as one. -/
  limit : Nat
  table : JoinTable
  stats : JoinStats
  /-- How many texts have been computed, each of which has the number that there were before it. -/
  made : Nat
  joined : table.Joined

namespace JoinCache

def new (limit : Nat) : JoinCache := ⟨limit, ∅, ⟨0, 0, 0⟩, 0, JoinTable.joined_empty⟩

def cap (c : JoinCache) : Nat := max c.limit 1

def inner (c : JoinCache) (left : String) : Std.HashMap String Shared := c.table.getD left ∅

def innerSize (c : JoinCache) (left : String) : Nat := (c.inner left).size

def fresh (c : JoinCache) (left right : String) : Shared := ⟨c.made, left ++ right⟩

/-- Keeps a new text; past the cap all texts of its left part go, the new one included. -/
def store (c : JoinCache) (left right : String) : JoinCache :=
  let stats := { c.stats with misses := c.stats.misses + 1 }
  if c.cap < c.innerSize left + 1 then
    { c with
      table := c.table.insert left ∅
      stats := { stats with clears := stats.clears + 1 }
      made := c.made + 1
      joined := c.joined.forget left }
  else
    { c with
      table := c.table.alter left fun texts => some ((texts.getD ∅).insert right (c.fresh left right))
      stats
      made := c.made + 1
      joined := c.joined.add rfl }

def join (c : JoinCache) (left right : String) : Shared × JoinCache :=
  match (c.inner left)[right]? with
  | some s => (s, { c with stats := { c.stats with hits := c.stats.hits + 1 } })
  | none => (c.fresh left right, c.store left right)

/-- Joining gives both parts together, whether or not the text was kept. -/
@[simp] theorem join_text (c : JoinCache) (left right : String) :
    (c.join left right).1.text = left ++ right := by
  unfold join
  split
  · rename_i s hs
    exact c.joined left right s hs
  · rfl

/-- The memo has been asked for so many texts, each of which was a hit or a miss. -/
def Asked (c : JoinCache) (n : Nat) : Prop :=
  ∃ hits misses : Nat, hits + misses = n ∧ c.stats.hits = .ofNat hits ∧ c.stats.misses = .ofNat misses

theorem asked_new (limit : Nat) : (new limit).Asked 0 := ⟨0, 0, rfl, rfl, rfl⟩

theorem Asked.join {c : JoinCache} {n : Nat} (h : c.Asked n) (left right : String) :
    (c.join left right).2.Asked (n + 1) := by
  obtain ⟨hits, misses, hsum, hhits, hmisses⟩ := h
  rw [JoinCache.join]
  split
  · exact ⟨hits + 1, misses, by omega, by rw [hhits, UInt64.ofNat_add]; rfl, hmisses⟩
  · have hnext : c.stats.misses + 1 = .ofNat (misses + 1) := by
      rw [hmisses, UInt64.ofNat_add]
      rfl
    refine ⟨hits, misses + 1, by omega, ?_⟩
    unfold store
    dsimp only
    split <;> exact ⟨hhits, hnext⟩

theorem Asked.sum_eq {c : JoinCache} {n : Nat} (h : c.Asked n) :
    c.stats.hits + c.stats.misses = .ofNat n := by
  obtain ⟨hits, misses, rfl, hhits, hmisses⟩ := h
  rw [hhits, hmisses, UInt64.ofNat_add]

/-- Words that have not come back to zero give the sum itself. -/
theorem Asked.toNat_eq {c : JoinCache} {n : Nat} (h : c.Asked n) (hn : n < UInt64.size) :
    c.stats.hits.toNat + c.stats.misses.toNat = n := by
  obtain ⟨hits, misses, rfl, hhits, hmisses⟩ := h
  rw [hhits, hmisses, UInt64.toNat_ofNat_of_lt' (Nat.lt_of_le_of_lt (Nat.le_add_right ..) hn),
    UInt64.toNat_ofNat_of_lt' (Nat.lt_of_le_of_lt (Nat.le_add_left ..) hn)]

end JoinCache
end CallMetrics
