/-! Arithmetic of 64-bit words where it does not wrap: differences that stay in range. -/

namespace CallMetrics

/-- The word that a whole number is, if it is in the range of words. -/
def word? (n : Int) : Option Int64 :=
  if h : Int64.minValue.toInt ≤ n ∧ n ≤ Int64.maxValue.toInt then some (.ofIntLE n h.1 h.2) else none

theorem exists_word?_eq {n : Int} (hmin : Int64.minValue.toInt ≤ n)
    (hmax : n ≤ Int64.maxValue.toInt) : ∃ a, word? n = some a ∧ a.toInt = n :=
  ⟨.ofIntLE n hmin hmax, dif_pos ⟨hmin, hmax⟩, Int64.toInt_ofIntLE⟩

/-- The order of words has its laws on the larger one of two, as it has them on the smaller one. -/
instance instLawfulOrderLeftLeaningMaxInt64 : Std.LawfulOrderLeftLeaningMax Int64 where
  max_eq_left a b hle := by
    change (if a ≤ b then b else a) = a
    split
    · rename_i h
      exact Int64.le_antisymm hle h
    · rfl
  max_eq_right a b hnot := by
    have hle : a ≤ b := Int64.le_of_lt (Int64.not_le.1 hnot)
    exact if_pos hle

theorem toInt_max (a b : Int64) : (max a b).toInt = max a.toInt b.toInt := by
  change (if a ≤ b then b else a).toInt = _
  split
  · rename_i h
    exact (Int.max_eq_right (Int64.le_iff_toInt_le.1 h)).symm
  · rename_i h
    exact (Int.max_eq_left (Int.le_of_lt (Int.not_le.1 (mt Int64.le_iff_toInt_le.2 h)))).symm

theorem toInt_ofIntClamp (n : Int) :
    (Int64.ofIntClamp n).toInt = max Int64.minValue.toInt (min n Int64.maxValue.toInt) := by
  have hrange : Int64.minValue.toInt ≤ Int64.maxValue.toInt := by decide
  rw [Int64.ofIntClamp]
  split
  · split
    · rw [Int64.toInt_ofIntLE]
      omega
    · omega
  · omega

/-- The difference, or the end of the range that it lies beyond. -/
def satSub (a b : Int64) : Int64 := Int64.ofIntClamp (a.toInt - b.toInt)

/-- A difference that reaches a word which is not negative does so outside the range of words too. -/
theorem le_satSub_iff {w a b : Int64} (hw : 0 ≤ w.toInt) :
    w ≤ satSub a b ↔ w.toInt ≤ a.toInt - b.toInt := by
  have hmax := w.toInt_le
  have hmin : Int64.minValue.toInt = -2 ^ 63 := Int64.toInt_minValue
  rw [Int64.le_iff_toInt_le, satSub, toInt_ofIntClamp]
  omega

def satAdd (a b : Int64) : Int64 := Int64.ofIntClamp (a.toInt + b.toInt)

def satMul (a b : Int64) : Int64 := Int64.ofIntClamp (a.toInt * b.toInt)

/-- How much later `b` is than `a`, zero if it is not. -/
def span (a b : Int64) : Int64 := max (satSub b a) 0

@[simp] theorem span_self (a : Int64) : span a a = 0 := by
  rw [span, satSub, Int.sub_self]
  rfl

/-- As much of the way from `a` to `b` as fits in a word. -/
theorem toInt_span (a b : Int64) :
    (span a b).toInt = max 0 (min (b.toInt - a.toInt) Int64.maxValue.toInt) := by
  have hmin : Int64.minValue.toInt = -2 ^ 63 := Int64.toInt_minValue
  have hmax : Int64.maxValue.toInt = 2 ^ 63 - 1 := Int64.toInt_maxValue
  have hzero : Int64.toInt 0 = 0 := rfl
  rw [span, toInt_max, satSub, toInt_ofIntClamp, hzero]
  omega

end CallMetrics
