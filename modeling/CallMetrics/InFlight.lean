/-! The number of calls that run at one place, and the guards that hold a call in that number. -/

namespace CallMetrics

structure InFlight where
  count : UInt64
  deriving DecidableEq

/-- Holds one call in the count, with the count right after it entered. -/
structure InFlightGuard where
  level : UInt64
  deriving DecidableEq

namespace InFlight

def none : InFlight := ⟨0⟩

def enter (c : InFlight) : InFlightGuard × InFlight :=
  (⟨UInt64.ofNat (min (c.count.toNat + 1) (UInt64.size - 1))⟩, ⟨c.count + 1⟩)

def leave (c : InFlight) : InFlight := ⟨c.count - 1⟩

@[simp] theorem leave_enter (c : InFlight) : c.enter.2.leave = c := by
  simp [leave, enter]

section Count
variable {c : InFlight} {n : Nat}

theorem count_enter (h : c.count = .ofNat n) : c.enter.2.count = .ofNat (n + 1) := by
  simp [enter, h]

theorem count_leave (h : c.count = .ofNat (n + 1)) : c.leave.count = .ofNat n := by
  simp [leave, h]

/-- A level is the count after entering as long as that is a word. -/
theorem level_enter (h : c.count = .ofNat n) (hn : n + 1 < UInt64.size) :
    c.enter.1.level.toNat = n + 1 := by
  have hcount : c.count.toNat = n := by
    rw [h, UInt64.toNat_ofNat_of_lt' (Nat.lt_of_succ_lt hn)]
  have hmin : min (n + 1) (UInt64.size - 1) = n + 1 := Nat.min_eq_left (Nat.le_pred_of_lt hn)
  rw [enter, hcount, hmin, UInt64.toNat_ofNat_of_lt' hn]

end Count

end InFlight

/-! Guards that are kept, numbered in the order of entry, and dropped in any order. -/

structure GuardBoard where
  counter : InFlight
  guards : List (Option InFlightGuard)

namespace GuardBoard

def empty : GuardBoard := ⟨.none, []⟩

/-- The guards that have not been dropped, in the order of entry. -/
def held (b : GuardBoard) : List InFlightGuard := b.guards.filterMap id

def enter (b : GuardBoard) : InFlightGuard × GuardBoard :=
  let (guard, counter) := b.counter.enter
  (guard, ⟨counter, b.guards ++ [some guard]⟩)

def drop (b : GuardBoard) (index : Nat) : Bool × GuardBoard :=
  match b.guards[index]? with
  | some (some _) => (true, ⟨b.counter.leave, b.guards.set index none⟩)
  | _ => (false, b)

/-- Enters and unwinds at once, which drops the guard. -/
def unwind (b : GuardBoard) : GuardBoard := ⟨b.counter.enter.2.leave, b.guards⟩

end GuardBoard
end CallMetrics
