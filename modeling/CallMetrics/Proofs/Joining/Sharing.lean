import Mathlib.Algebra.BigOperators.Group.Finset.Piecewise
import Mathlib.Data.List.Induction
import CallMetrics.JoinCache

/-! What a memo of joined texts keeps and shares over any number of calls. For each left part it keeps as
many texts as have been missed since it was last cleared, and the clear comes with the first miss
beyond the cap, so both follow from the misses of that left part alone (`Serves.filled`). A text is
kept as long as no call since it was given, itself included, has cleared its left part
(`Serves.exists_kept`, `Serves.held_of_kept`), and a new text gets a number that no other one has; so
two calls share an instance just if the first one's is still kept when the second one comes
(`Serves.id_eq_iff`). -/

namespace CallMetrics

/-- A call to a memo: the parts that it joins, the instance that it is given, and whether it changes
the memo's count of misses and that of clears. -/
structure Joining where
  left : String
  right : String
  given : Shared
  missed : Bool
  cleared : Bool

namespace JoinCache
variable (c : JoinCache) (left right : String)

def joining : Joining where
  left := left
  right := right
  given := (c.join left right).1
  missed := (c.join left right).2.stats.misses ≠ c.stats.misses
  cleared := (c.join left right).2.stats.clears ≠ c.stats.clears

@[simp] theorem joining_left : (c.joining left right).left = left := rfl

@[simp] theorem joining_right : (c.joining left right).right = right := rfl

/-- Calls one after another, and the memo after them. -/
def joins (c : JoinCache) : List (String × String) → List Joining × JoinCache
  | [] => ([], c)
  | (left, right) :: rest =>
    let (trace, last) := (c.join left right).2.joins rest
    (c.joining left right :: trace, last)

theorem joins_concat (calls : List (String × String)) :
    c.joins (calls ++ [(left, right)]) =
      ((c.joins calls).1 ++ [(c.joins calls).2.joining left right],
        ((c.joins calls).2.join left right).2) := by
  induction calls generalizing c with
  | nil => rfl
  | cons call rest ih => simp only [List.cons_append, joins, ih]

/-- What a call does to a memo. Only the texts of its own left part change: a clear leaves none of them,
and otherwise the given one is kept beside those that there are. -/
structure Serves (c c' : JoinCache) (j : Joining) : Prop where
  cap : c'.cap = c.cap
  found : (c.inner j.left)[j.right]? = if j.missed then none else some j.given
  cleared : j.cleared = (j.missed && decide (c.cap ≤ c.innerSize j.left))
  fresh : j.missed = true → j.given.id = c.made
  made : c'.made = c.made + if j.missed then 1 else 0
  misses : c'.stats.misses = if j.missed then c.stats.misses + 1 else c.stats.misses
  clears : c'.stats.clears = if j.cleared then c.stats.clears + 1 else c.stats.clears
  others : ∀ other, other ≠ j.left → c'.inner other = c.inner other
  own : ∀ r, (c'.inner j.left)[r]? = if j.cleared then none else
    if r = j.right then some j.given else (c.inner j.left)[r]?
  size : c'.innerSize j.left =
    if j.cleared then 0 else c.innerSize j.left + if j.missed then 1 else 0

theorem serves_hit {s : Shared} (h : (c.inner left)[right]? = some s) :
    c.Serves { c with stats := { c.stats with hits := c.stats.hits + 1 } }
      ⟨left, right, s, false, false⟩ where
  cap := rfl
  found := h
  cleared := rfl
  fresh := by simp
  made := rfl
  misses := rfl
  clears := rfl
  others := fun _ _ => rfl
  own := by
    intro r
    show (c.inner left)[r]? = if r = right then some s else (c.inner left)[r]?
    split
    · rename_i hr
      rw [hr, h]
    · rfl
  size := rfl

theorem serves_miss (h : (c.inner left)[right]? = none) (hroom : c.innerSize left < c.cap) :
    c.Serves (c.store left right) ⟨left, right, c.fresh left right, true, false⟩ := by
  have hown (other : String) : (c.store left right).inner other =
      if other = left then (c.inner left).insert right (c.fresh left right)
      else c.inner other := by
    rw [store, if_neg (Nat.not_lt.2 hroom), inner, Std.HashMap.getD_alter, Option.getD_some,
      ← Std.HashMap.getD_eq_getD_getElem?]
    simp only [beq_iff_eq, eq_comm (a := left)]
    rfl
  have hnew : right ∉ c.inner left := by
    rw [Std.HashMap.mem_iff_isSome_getElem?, h]
    exact Bool.false_ne_true
  constructor
  case found => exact h
  case cleared => exact (decide_eq_false (Nat.not_le.2 hroom)).symm
  case fresh => exact fun _ => rfl
  case others => exact fun other hother => (hown other).trans (if_neg hother)
  case own =>
    intro r
    rw [hown, if_pos rfl, Std.HashMap.getElem?_insert]
    simp only [beq_iff_eq, eq_comm (a := right)]
    rfl
  case size => rw [innerSize, hown, if_pos rfl, Std.HashMap.size_insert, if_neg hnew]; rfl
  all_goals rw [store, if_neg (Nat.not_lt.2 hroom)]; rfl

theorem serves_clear (h : (c.inner left)[right]? = none) (hfull : c.cap ≤ c.innerSize left) :
    c.Serves (c.store left right) ⟨left, right, c.fresh left right, true, true⟩ := by
  have hown (other : String) : (c.store left right).inner other =
      if other = left then ∅ else c.inner other := by
    rw [store, if_pos (Nat.lt_succ_of_le hfull), inner, Std.HashMap.getD_insert]
    simp only [beq_iff_eq, eq_comm (a := left)]
    rfl
  constructor
  case found => exact h
  case cleared => exact (decide_eq_true hfull).symm
  case fresh => exact fun _ => rfl
  case others => exact fun other hother => (hown other).trans (if_neg hother)
  case own =>
    intro r
    rw [hown, if_pos rfl]
    exact Std.HashMap.getElem?_empty
  case size => rw [innerSize, hown, if_pos rfl]; rfl
  all_goals rw [store, if_pos (Nat.lt_succ_of_le hfull)]; rfl

theorem serves_join : c.Serves (c.join left right).2 (c.joining left right) := by
  rw [joining, join]
  cases h : (c.inner left)[right]? with
  | some s => simpa using c.serves_hit left right h
  | none =>
    rcases Nat.lt_or_ge (c.innerSize left) c.cap with hroom | hfull
    · have hserves := c.serves_miss left right h hroom
      simpa [hserves.misses, hserves.clears] using hserves
    · have hserves := c.serves_clear left right h hfull
      simpa [hserves.misses, hserves.clears] using hserves

end JoinCache

namespace Joining
variable {trace : List Joining} {j k : Joining}

/-- How often a left part was missed. -/
def missesOf (left : String) (trace : List Joining) : Nat :=
  trace.countP fun j => j.left = left ∧ j.missed

def clearsOf (left : String) (trace : List Joining) : Nat :=
  trace.countP fun j => j.left = left ∧ j.cleared

/-- Each clear of a call belongs to its left part. -/
theorem sum_clearsOf {lefts : Finset String} (h : ∀ j ∈ trace, j.left ∈ lefts) :
    ∑ left ∈ lefts, clearsOf left trace = trace.countP (·.cleared) := by
  induction trace with
  | nil => exact Finset.sum_const_zero
  | cons j rest ih =>
    have hrest := ih fun k hk => h k (List.mem_cons_of_mem j hk)
    have hown : ∑ left ∈ lefts, (if j.left = left ∧ j.cleared then 1 else 0) =
        if j.cleared then 1 else 0 := by
      simp only [ite_and]
      rw [Finset.sum_ite_eq, if_pos (h j List.mem_cons_self)]
    simp only [clearsOf, List.countP_cons, decide_eq_true_eq] at hrest ⊢
    rw [Finset.sum_add_distrib, hrest, hown]

/-- The text of a call is still kept after some calls: since it was given, by a call that may itself have
cleared its left part, none has. -/
def Kept (trace : List Joining) (j : Joining) : Prop :=
  ∃ before after, trace = before ++ j :: after ∧
    ∀ k ∈ j :: after, k.left = j.left → k.cleared = false

/-- Two calls of a trace, the one before the other, are given the same instance just if they join the same
parts and no call from the earlier one on clears their left part before the later one. -/
def SharedInstances (trace : List Joining) : Prop :=
  ∀ before earlier between later after,
    trace = before ++ earlier :: (between ++ later :: after) →
      (earlier.given.id = later.given.id ↔
        earlier.left = later.left ∧ earlier.right = later.right ∧
          ∀ k ∈ earlier :: between, k.left = earlier.left → k.cleared = false)

/-- A count by words goes on by one with each further call that it is about. -/
theorem ofNat_countP_concat (p : Joining → Bool) :
    UInt64.ofNat ((trace ++ [j]).countP p) =
      if p j then .ofNat (trace.countP p) + 1 else .ofNat (trace.countP p) := by
  rw [List.countP_append, List.countP_singleton]
  split
  · exact UInt64.ofNat_add _ 1
  · rfl

theorem concat_eq_append_cons {β : Type} {l before after : List β} {x y : β}
    (h : l ++ [y] = before ++ x :: after) :
    (after = [] ∧ l = before ∧ y = x) ∨ ∃ rest, after = rest ++ [y] ∧ l = before ++ x :: rest := by
  induction after using List.reverseRecOn with
  | nil =>
    have hparts := List.append_inj' h rfl
    exact .inl ⟨rfl, hparts.1, List.head_eq_of_cons_eq hparts.2⟩
  | append_singleton rest z _ =>
    rw [← List.cons_append, ← List.append_assoc] at h
    have hparts := List.append_inj' h rfl
    exact .inr ⟨rest, by rw [List.head_eq_of_cons_eq hparts.2], hparts.1⟩

theorem kept_concat : Kept (trace ++ [k]) j ↔
    (j = k ∧ k.cleared = false) ∨ (Kept trace j ∧ (k.left = j.left → k.cleared = false)) := by
  constructor
  · rintro ⟨before, after, hsplit, hnone⟩
    rcases concat_eq_append_cons hsplit with ⟨-, -, rfl⟩ | ⟨rest, rfl, rfl⟩
    · exact .inl ⟨rfl, hnone k List.mem_cons_self rfl⟩
    · rw [← List.cons_append, List.forall_mem_append] at hnone
      exact .inr ⟨⟨before, rest, rfl, hnone.1⟩, hnone.2 k List.mem_cons_self⟩
  · rintro (⟨rfl, hkept⟩ | ⟨⟨before, after, rfl, hnone⟩, hlast⟩)
    · refine ⟨trace, [], rfl, ?_⟩
      intro k hk _
      rw [List.mem_singleton.1 hk]
      exact hkept
    · refine ⟨before, after ++ [k], by simp, ?_⟩
      rw [← List.cons_append, List.forall_mem_append]
      refine ⟨hnone, ?_⟩
      intro l hl
      rw [List.mem_singleton.1 hl]
      exact hlast

/-- Where a call has been given the instance of one whose text is kept, its own text is the same and
kept, whichever of both came first. -/
theorem SharedInstances.kept_of_id_eq (h : SharedInstances trace) {before between : List Joining}
    (hsplit : trace = before ++ j :: between) (hkept : Kept trace k)
    (hid : j.given.id = k.given.id) : j.left = k.left ∧ j.right = k.right ∧
      ∀ l ∈ j :: between, l.left = j.left → l.cleared = false := by
  obtain ⟨start, rest, hgiver, hnone⟩ := hkept
  have hsame := hsplit.symm.trans hgiver
  rcases List.append_eq_append_iff.1 hsame with ⟨middle, -, hmiddle⟩ | ⟨middle, -, hmiddle⟩
  · -- the call comes first, or is the other one itself
    cases middle with
    | nil =>
      obtain ⟨rfl, rfl⟩ := List.cons.inj hmiddle
      exact ⟨rfl, rfl, hnone⟩
    | cons first middle =>
      obtain ⟨rfl, rfl⟩ := List.cons.inj hmiddle
      obtain ⟨hleft, hright, hbetween⟩ := (h before j middle k rest hsplit).1 hid
      refine ⟨hleft, hright, ?_⟩
      intro l hl hlleft
      have hmem : l ∈ (j :: middle) ++ k :: rest := hl
      rcases List.mem_append.1 hmem with hl | hl
      · exact hbetween l hl hlleft
      · exact hnone l hl (hlleft.trans hleft)
  · cases middle with
    | nil =>
      obtain ⟨rfl, rfl⟩ := List.cons.inj hmiddle
      exact ⟨rfl, rfl, hnone⟩
    | cons first middle =>
      obtain ⟨rfl, rfl⟩ := List.cons.inj hmiddle
      obtain ⟨hleft, hright, -⟩ := (h start k middle j between hgiver).1 hid.symm
      refine ⟨hleft.symm, hright.symm, ?_⟩
      intro l hl hlleft
      have hmem : l ∈ k :: (middle ++ j :: between) :=
        List.mem_cons_of_mem k (List.mem_append_right middle hl)
      exact hnone l hmem (hlleft.trans hleft.symm)

end Joining

namespace JoinCache
open Joining
variable {c c' : JoinCache} {trace : List Joining} {j : Joining}

/-- What a memo has counted, keeps and has given follows from its calls. -/
structure Follows (c : JoinCache) (trace : List Joining) : Prop where
  misses : c.stats.misses = .ofNat (trace.countP (·.missed))
  clears : c.stats.clears = .ofNat (trace.countP (·.cleared))
  bounded : ∀ left, c.innerSize left ≤ c.cap
  filled : ∀ left, c.innerSize left + (c.cap + 1) * clearsOf left trace = missesOf left trace
  numbered : ∀ j ∈ trace, j.given.id < c.made
  kept : ∀ left right s, (c.inner left)[right]? = some s ↔
    ∃ j, Kept trace j ∧ j.left = left ∧ j.right = right ∧ j.given = s
  shared : SharedInstances trace

theorem follows_new (limit : Nat) : (new limit).Follows [] where
  misses := rfl
  clears := rfl
  bounded := by simp [innerSize, inner, new]
  filled := by simp [innerSize, inner, new, clearsOf, missesOf]
  numbered := by simp
  kept := by simp [inner, new, Kept]
  shared := by simp [SharedInstances]

namespace Serves

theorem innerSize_eq (hs : c.Serves c' j) (left : String) :
    c'.innerSize left = if j.left = left
      then if j.cleared then 0 else c.innerSize left + if j.missed then 1 else 0
      else c.innerSize left := by
  split
  · rename_i hleft
    rw [← hleft]
    exact hs.size
  · rename_i hleft
    rw [innerSize, hs.others left (Ne.symm hleft)]
    rfl

theorem getElem?_inner (hs : c.Serves c' j) (left right : String) :
    (c'.inner left)[right]? = if j.left = left
      then if j.cleared then none else if right = j.right then some j.given
        else (c.inner left)[right]?
      else (c.inner left)[right]? := by
  split
  · rename_i hleft
    rw [← hleft]
    exact hs.own right
  · rename_i hleft
    rw [hs.others left (Ne.symm hleft)]

theorem held_of_hit (hs : c.Serves c' j) (h : j.missed = false) :
    (c.inner j.left)[j.right]? = some j.given := by
  rw [hs.found, h, if_neg Bool.false_ne_true]

theorem given_of_held (hs : c.Serves c' j) {s : Shared}
    (h : (c.inner j.left)[j.right]? = some s) : j.given = s := by
  rw [hs.found] at h
  split at h
  · cases h
  · exact Option.some.inj h

theorem cleared_iff (hs : c.Serves c' j) :
    j.cleared = true ↔ j.missed = true ∧ c.cap ≤ c.innerSize j.left := by
  rw [hs.cleared, Bool.and_eq_true, decide_eq_true_eq]

/-- A left part is filled by its misses and emptied with the first one beyond the cap. -/
theorem filled (hs : c.Serves c' j) (h : c.Follows trace) (left : String) :
    c'.innerSize left ≤ c'.cap ∧
      c'.innerSize left + (c'.cap + 1) * clearsOf left (trace ++ [j]) =
        missesOf left (trace ++ [j]) := by
  have hbounded := h.bounded left
  have hfilled := h.filled left
  have hcleared := hs.cleared_iff
  rw [hs.cap, hs.innerSize_eq]
  simp only [clearsOf, missesOf] at hfilled
  simp only [clearsOf, missesOf, List.countP_append, List.countP_singleton, decide_eq_true_eq]
  by_cases hleft : j.left = left
  · rw [hleft] at hcleared
    simp only [hleft, if_true, true_and]
    cases hmissed : j.missed with
    | false =>
      have hkeeps : j.cleared = false := by simp [hs.cleared, hmissed]
      simp only [hkeeps, Bool.false_eq_true, if_false, Nat.add_zero]
      exact ⟨hbounded, hfilled⟩
    | true =>
      cases hclears : j.cleared with
      | false =>
        have hroom : ¬c.cap ≤ c.innerSize left := by simpa [hmissed, hclears] using hcleared
        simp only [Bool.false_eq_true, if_false, if_true, Nat.add_zero, ← hfilled]
        exact ⟨Nat.lt_of_not_le hroom, Nat.add_right_comm _ 1 _⟩
      | true =>
        have hfull : c.innerSize left = c.cap := Nat.le_antisymm hbounded (hcleared.1 hclears).2
        simp only [if_true, ← hfilled, hfull, Nat.mul_succ]
        exact ⟨Nat.zero_le _, by omega⟩
  · simp only [hleft, if_false, false_and, Nat.add_zero]
    exact ⟨hbounded, hfilled⟩

theorem id_lt (hs : c.Serves c' j) (h : c.Follows trace) : j.given.id < c'.made := by
  rw [hs.made]
  cases hmissed : j.missed with
  | true =>
    rw [hs.fresh hmissed]
    exact Nat.lt_succ_self _
  | false =>
    obtain ⟨giver, ⟨before, after, hsplit, -⟩, -, -, hgiven⟩ :=
      (h.kept _ _ _).1 (hs.held_of_hit hmissed)
    have hmem : giver ∈ trace := by simp [hsplit]
    rw [← hgiven]
    exact h.numbered giver hmem

theorem exists_kept (hs : c.Serves c' j) (h : c.Follows trace) {left right : String} {s : Shared}
    (hheld : (c'.inner left)[right]? = some s) :
    ∃ k, Kept (trace ++ [j]) k ∧ k.left = left ∧ k.right = right ∧ k.given = s := by
  rw [hs.getElem?_inner] at hheld
  simp only [kept_concat]
  by_cases hleft : j.left = left
  · rw [if_pos hleft] at hheld
    cases hkeeps : j.cleared with
    | true => simp [hkeeps] at hheld
    | false =>
      rw [hkeeps, if_neg Bool.false_ne_true] at hheld
      by_cases hright : right = j.right
      · rw [if_pos hright] at hheld
        exact ⟨j, .inl ⟨rfl, rfl⟩, hleft, hright.symm, Option.some.inj hheld⟩
      · rw [if_neg hright] at hheld
        obtain ⟨k, hk, hparts⟩ := (h.kept left right s).1 hheld
        exact ⟨k, .inr ⟨hk, fun _ => rfl⟩, hparts⟩
  · rw [if_neg hleft] at hheld
    obtain ⟨k, hk, hkleft, hparts⟩ := (h.kept left right s).1 hheld
    exact ⟨k, .inr ⟨hk, fun hsame => absurd (hsame.trans hkleft) hleft⟩, hkleft, hparts⟩

theorem held_of_kept (hs : c.Serves c' j) (h : c.Follows trace) {k : Joining}
    (hkept : Kept (trace ++ [j]) k) : (c'.inner k.left)[k.right]? = some k.given := by
  rw [hs.getElem?_inner]
  rcases kept_concat.1 hkept with ⟨rfl, hkeeps⟩ | ⟨hkept, hkeeps⟩
  · rw [if_pos rfl, hkeeps, if_neg Bool.false_ne_true, if_pos rfl]
  · have hheld := (h.kept k.left k.right k.given).2 ⟨k, hkept, rfl, rfl, rfl⟩
    by_cases hleft : j.left = k.left
    · rw [if_pos hleft, hkeeps hleft, if_neg Bool.false_ne_true]
      by_cases hright : k.right = j.right
      · -- what is found is what was kept
        rw [if_pos hright]
        rw [← hleft, hright] at hheld
        exact congrArg some (hs.given_of_held hheld)
      · rw [if_neg hright]
        exact hheld
    · rw [if_neg hleft]
      exact hheld

/-- The instance that a call is given is the one of an earlier call just if that one's is kept. -/
theorem id_eq_iff (hs : c.Serves c' j) (h : c.Follows trace) {before between : List Joining}
    {earlier : Joining} (hsplit : trace = before ++ earlier :: between) :
    earlier.given.id = j.given.id ↔ earlier.left = j.left ∧ earlier.right = j.right ∧
      ∀ k ∈ earlier :: between, k.left = earlier.left → k.cleared = false := by
  constructor
  · intro hid
    cases hmissed : j.missed with
    | true =>
      -- the number of a new text is new
      have hmem : earlier ∈ trace := by simp [hsplit]
      have hnew := h.numbered earlier hmem
      rw [hid, hs.fresh hmissed] at hnew
      exact absurd hnew (Nat.lt_irrefl _)
    | false =>
      obtain ⟨giver, hkept, hleft, hright, hgiven⟩ := (h.kept _ _ _).1 (hs.held_of_hit hmissed)
      rw [← hleft, ← hright]
      rw [← hgiven] at hid
      exact h.shared.kept_of_id_eq hsplit hkept hid
  · rintro ⟨hleft, hright, hnone⟩
    have hheld := (h.kept earlier.left earlier.right earlier.given).2
      ⟨earlier, ⟨before, between, hsplit, hnone⟩, rfl, rfl, rfl⟩
    rw [hleft, hright] at hheld
    exact congrArg Shared.id (hs.given_of_held hheld).symm

theorem follows (hs : c.Serves c' j) (h : c.Follows trace) : c'.Follows (trace ++ [j]) where
  misses := by
    rw [hs.misses, h.misses, ofNat_countP_concat]
  clears := by
    rw [hs.clears, h.clears, ofNat_countP_concat]
  bounded := fun left => (hs.filled h left).1
  filled := fun left => (hs.filled h left).2
  numbered := by
    intro k hk
    rcases List.mem_append.1 hk with hk | hk
    · have hmade : c.made ≤ c'.made := by
        rw [hs.made]
        exact Nat.le_add_right _ _
      exact Nat.lt_of_lt_of_le (h.numbered k hk) hmade
    · rw [List.mem_singleton.1 hk]
      exact hs.id_lt h
  kept := by
    intro left right s
    constructor
    · exact hs.exists_kept h
    · rintro ⟨k, hkept, rfl, rfl, rfl⟩
      exact hs.held_of_kept h hkept
  shared := by
    intro before earlier between later after hsplit
    rw [← List.cons_append, ← List.append_assoc] at hsplit
    rcases concat_eq_append_cons hsplit with ⟨-, hbefore, rfl⟩ | ⟨rest, rfl, hbefore⟩
    · exact hs.id_eq_iff h hbefore
    · rw [List.append_assoc, List.cons_append] at hbefore
      exact h.shared before earlier between later rest hbefore

end Serves

theorem asked_joins (limit : Nat) (calls : List (String × String)) :
    ((new limit).joins calls).2.Asked calls.length := by
  induction calls using List.reverseRecOn with
  | nil => exact asked_new limit
  | append_singleton calls call ih =>
    rw [joins_concat, List.length_append]
    exact ih.join call.1 call.2

theorem follows_joins (limit : Nat) (calls : List (String × String)) :
    ((new limit).joins calls).2.Follows ((new limit).joins calls).1 ∧
      ((new limit).joins calls).2.cap = max limit 1 ∧
      ((new limit).joins calls).1.map (fun j => (j.left, j.right, j.given.text)) =
        calls.map fun call => (call.1, call.2, call.1 ++ call.2) := by
  induction calls using List.reverseRecOn with
  | nil => exact ⟨follows_new limit, rfl, rfl⟩
  | append_singleton calls call ih =>
    obtain ⟨left, right⟩ := call
    obtain ⟨hfollows, hcap, htexts⟩ := ih
    rw [joins_concat]
    have hserves := ((new limit).joins calls).2.serves_join left right
    refine ⟨hserves.follows hfollows, hserves.cap.trans hcap, ?_⟩
    rw [List.map_append, List.map_append, htexts]
    simp [joining]

end JoinCache

/-- However a new memo is called, each call is given both parts together and counts as a hit or as a miss.
A left part that was missed m times has m mod (cap + 1) texts kept, so never more than the cap, and
has been cleared m div (cap + 1) times; a call leaves what is kept for other left parts as it is. The
counts are words: they are the numbers themselves as long as there are fewer calls than words. Two
calls are given the same instance just if they join the same parts and no call from the first one
on has cleared their left part before the second one. -/
theorem joined_texts_shared (limit : Nat) (calls : List (String × String)) :
    let cap := max limit 1
    let trace := ((JoinCache.new limit).joins calls).1
    let c := ((JoinCache.new limit).joins calls).2
    trace.map (fun j => (j.left, j.right, j.given.text)) =
        calls.map (fun call => (call.1, call.2, call.1 ++ call.2)) ∧
      c.stats.hits + c.stats.misses = .ofNat calls.length ∧
      c.stats.misses = .ofNat (trace.countP (·.missed)) ∧
      (∀ left, c.innerSize left = Joining.missesOf left trace % (cap + 1) ∧
        c.innerSize left ≤ cap) ∧
      c.stats.clears =
        .ofNat (∑ left ∈ (calls.map (·.1)).toFinset, Joining.missesOf left trace / (cap + 1)) ∧
      (calls.length < UInt64.size →
        c.stats.hits.toNat + c.stats.misses.toNat = calls.length ∧
          c.stats.misses.toNat = trace.countP (·.missed) ∧
          c.stats.clears.toNat =
            ∑ left ∈ (calls.map (·.1)).toFinset, Joining.missesOf left trace / (cap + 1)) ∧
      (∀ left right other, other ≠ left → (c.join left right).2.inner other = c.inner other) ∧
      ∀ before earlier between later after,
        trace = before ++ earlier :: (between ++ later :: after) →
          (earlier.given.id = later.given.id ↔
            earlier.left = later.left ∧ earlier.right = later.right ∧
              ∀ k ∈ earlier :: between, k.left = earlier.left → k.cleared = false) := by
  intro cap trace c
  obtain ⟨hfollows, hcap, htexts⟩ := JoinCache.follows_joins limit calls
  have hparts : trace.map (·.left) = calls.map (·.1) := by
    have hfirst := congrArg (List.map Prod.fst) htexts
    rw [List.map_map, List.map_map] at hfirst
    exact hfirst
  have hlength : trace.length = calls.length := by simpa using congrArg List.length htexts
  have hbounded (left : String) : c.innerSize left ≤ cap := by
    have hleft := hfollows.bounded left
    rw [hcap] at hleft
    exact hleft
  have hfilled (left : String) : Joining.missesOf left trace / (cap + 1) =
      Joining.clearsOf left trace ∧ Joining.missesOf left trace % (cap + 1) = c.innerSize left := by
    have hsum := hfollows.filled left
    rw [hcap] at hsum
    exact (Nat.div_mod_unique (Nat.succ_pos cap)).2 ⟨hsum, Nat.lt_succ_of_le (hbounded left)⟩
  have hclears : trace.countP (·.cleared) =
      ∑ left ∈ (calls.map (·.1)).toFinset, Joining.missesOf left trace / (cap + 1) := by
    have hmem : ∀ j ∈ trace, j.left ∈ (calls.map (·.1)).toFinset := by
      intro j hj
      rw [List.mem_toFinset, ← hparts]
      exact List.mem_map_of_mem hj
    rw [Finset.sum_congr rfl fun left _ => (hfilled left).1, Joining.sum_clearsOf hmem]
  have hasked := JoinCache.asked_joins limit calls
  have hcount (p : Joining → Bool) (hfew : calls.length < UInt64.size) :
      (UInt64.ofNat (trace.countP p)).toNat = trace.countP p :=
    UInt64.toNat_ofNat_of_lt' (Nat.lt_of_le_of_lt (hlength ▸ List.countP_le_length) hfew)
  refine ⟨htexts, hasked.sum_eq, hfollows.misses,
    fun left => ⟨(hfilled left).2.symm, hbounded left⟩, ?_, fun hfew => ⟨hasked.toNat_eq hfew, ?_, ?_⟩,
    fun left right => (c.serves_join left right).others, hfollows.shared⟩
  · rw [← hclears]
    exact hfollows.clears
  · rw [hfollows.misses]
    exact hcount _ hfew
  · rw [hfollows.clears, ← hclears]
    exact hcount _ hfew

/-- With room for one text, the second call shares the first one's; the third one clears their left
part, and the last one is given another. -/
theorem joined_texts_shared_until_cleared :
    let c := JoinCache.new 1
    let c' := (c.join "x/" "1").2
    let c'' := (c'.join "x/" "1").2
    let first := c.joining "x/" "1"
    let again := c'.joining "x/" "1"
    let other := c''.joining "x/" "2"
    let last := (c''.join "x/" "2").2.joining "x/" "1"
    (c.joins [("x/", "1"), ("x/", "1"), ("x/", "2"), ("x/", "1")]).1 =
        [] ++ first :: ([] ++ again :: [other, last]) ∧
      first.given.id = again.given.id ∧ first.given.id ≠ last.given.id := by
  intro c c' c'' first again other last
  obtain ⟨-, -, -, -, -, -, -, hshared⟩ :=
    joined_texts_shared 1 [("x/", "1"), ("x/", "1"), ("x/", "2"), ("x/", "1")]
  have htrace : (c.joins [("x/", "1"), ("x/", "1"), ("x/", "2"), ("x/", "1")]).1 =
      [first, again, other, last] := by
    simp only [JoinCache.joins, first, again, other, last, c', c'']
  have hkept : first.cleared = false := by
    simp [first, c, JoinCache.joining, JoinCache.join, JoinCache.store, JoinCache.inner,
      JoinCache.innerSize, JoinCache.cap, JoinCache.fresh, JoinCache.new]
  have hcleared : other.cleared = true := by
    simp [other, c'', c', c, JoinCache.joining, JoinCache.join, JoinCache.store, JoinCache.inner,
      JoinCache.innerSize, JoinCache.cap, JoinCache.fresh, JoinCache.new, Std.HashMap.size_insert]
  refine ⟨htrace, ?_, ?_⟩
  · have hagain := (hshared [] first [] again [other, last] htrace).2
    exact hagain ⟨by simp [first, again], by simp [first, again], by simp [hkept]⟩
  · intro hid
    obtain ⟨-, -, hnone⟩ := (hshared [] first [again, other] last [] htrace).1 hid
    have hopen : other.cleared = false := hnone other (by simp) (by simp [first, other])
    rw [hcleared] at hopen
    cases hopen

end CallMetrics
