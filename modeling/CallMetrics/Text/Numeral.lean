/-! Decimal numerals. A natural number is written without leading zeros and read back from its
digits (`ofDigits_natChars`). -/

namespace CallMetrics.Text

def natChars (n : Nat) : List Char := Nat.toDigits 10 n

def intChars : Int → List Char
  | .ofNat n => natChars n
  | .negSucc n => '-' :: natChars (n + 1)

/-- The number that a run of digits stands for; leading zeros are allowed. -/
def ofDigits (digits : List Char) : Nat := Nat.ofDigitChars 10 digits 0

theorem ofDigits_natChars (n : Nat) : ofDigits (natChars n) = n := Nat.ofDigitChars_ten_toDigits

theorem natChars_inj {a b : Nat} (h : natChars a = natChars b) : a = b := by
  rw [← ofDigits_natChars a, h, ofDigits_natChars]

theorem isDigit_of_mem_natChars {n : Nat} {c : Char} (h : c ∈ natChars n) : c.isDigit = true :=
  Nat.isDigit_of_mem_toDigits (by omega) (by omega) h

theorem natChars_ne_nil (n : Nat) : natChars n ≠ [] := Nat.toDigits_ne_nil

theorem exists_cons_natChars (n : Nat) : ∃ c cs, natChars n = c :: cs ∧ c.isDigit = true := by
  obtain ⟨c, cs, hchars⟩ := List.exists_cons_of_ne_nil (natChars_ne_nil n)
  exact ⟨c, cs, hchars, isDigit_of_mem_natChars (hchars ▸ List.mem_cons_self)⟩

/-- A numeral begins with a zero only if it is the numeral of zero. -/
theorem eq_zero_of_head?_natChars {n : Nat} (h : (natChars n).head? = some '0') : n = 0 := by
  induction n using Nat.strongRecOn with
  | ind n ih =>
    by_cases hlt : n < 10
    · rw [natChars, Nat.toDigits_of_lt_base hlt, List.head?_singleton, Option.some.injEq] at h
      have hdigits : ∀ d < 10, Nat.digitChar d = '0' → d = 0 := by decide
      exact hdigits n hlt h
    · have hbefore : natChars n = natChars (n / 10) ++ [Nat.digitChar (n % 10)] :=
        Nat.toDigits_of_base_le (by omega) (by omega)
      have hhead : (natChars n).head? = (natChars (n / 10)).head? := by
        rw [hbefore, List.head?_append]
        cases hfront : natChars (n / 10) with
        | nil => exact absurd hfront (natChars_ne_nil _)
        | cons d ds => rfl
      have hzero := ih (n / 10) (by omega) (hhead ▸ h)
      omega

/-- A run of at least one digit, with an optional plus sign before it. -/
def readNat? (s : String) : Option Nat :=
  let digits := match s.toList with
    | '+' :: rest => rest
    | cs => cs
  if digits ≠ [] ∧ digits.all Char.isDigit then some (ofDigits digits) else none

/-- A text that is written for a number: digits, with or without a plus sign. -/
def IsNumeral (s : String) (n : Nat) : Prop :=
  ∃ digits, (s.toList = digits ∨ s.toList = '+' :: digits) ∧
    digits ≠ [] ∧ (∀ c ∈ digits, c.isDigit = true) ∧ ofDigits digits = n

theorem IsNumeral.ne_empty {s : String} {n : Nat} (h : IsNumeral s n) : s ≠ "" := by
  rintro rfl
  obtain ⟨digits, hdigits | hdigits, hne, -⟩ := h
  · exact hne hdigits.symm
  · cases hdigits

theorem readNat?_eq_some_iff {s : String} {n : Nat} : readNat? s = some n ↔ IsNumeral s n := by
  have hread (digits : List Char) :
      (if digits ≠ [] ∧ digits.all Char.isDigit then some (ofDigits digits) else none) = some n ↔
        digits ≠ [] ∧ (∀ c ∈ digits, c.isDigit = true) ∧ ofDigits digits = n := by
    simp [List.all_eq_true, and_assoc]
  rw [readNat?, hread, IsNumeral]
  generalize s.toList = cs
  split
  next rest =>
    refine ⟨fun h => ⟨rest, .inr rfl, h⟩, ?_⟩
    rintro ⟨digits, rfl | hdigits, h⟩
    · -- the sign would be a digit
      exact absurd (h.2.1 '+' List.mem_cons_self) (by decide)
    · obtain rfl := (List.cons.inj hdigits).2
      exact h
  next hunsigned =>
    refine ⟨fun h => ⟨cs, .inl rfl, h⟩, ?_⟩
    rintro ⟨digits, rfl | hdigits, h⟩
    · exact h
    · exact absurd hdigits (hunsigned digits)

end CallMetrics.Text
