import CallMetrics.Text.Blank

/-! Letter case of the ASCII letters; every other character is left alone. Changing the case of a
text touches neither its blanks nor its slashes, so a trimmed text stays trimmed. -/

namespace CallMetrics.Text

def upper (s : String) : String := String.ofList (s.toList.map Char.toUpper)

def lower (s : String) : String := String.ofList (s.toList.map Char.toLower)

theorem toUpper_eq_self_or (c : Char) :
    c.toUpper = c ∨ (97 ≤ c.toNat ∧ c.toNat ≤ 122 ∧ 65 ≤ c.toUpper.toNat ∧ c.toUpper.toNat ≤ 90) := by
  by_cases h : 'a' ≤ c ∧ c ≤ 'z'
  · right
    have h1 : 97 ≤ c.toNat := h.1
    have h2 : c.toNat ≤ 122 := h.2
    have hc : c = Char.ofNat c.toNat := (Char.ofNat_toNat c).symm
    generalize c.toNat = n at *
    subst hc
    have : ∀ m : Fin 26, 65 ≤ (Char.ofNat (97 + m.val)).toUpper.toNat ∧
        (Char.ofNat (97 + m.val)).toUpper.toNat ≤ 90 := by decide
    have hm := this ⟨n - 97, by omega⟩
    rw [show 97 + (n - 97) = n by omega] at hm
    exact ⟨h1, h2, hm⟩
  · left
    exact dif_neg fun h' =>
      h ⟨by simpa [Char.le_def] using h'.1, by simpa [Char.le_def] using h'.2⟩

theorem isBlank_toUpper (c : Char) : isBlank c.toUpper = isBlank c := by
  rcases toUpper_eq_self_or c with h | ⟨h1, h2, h3, h4⟩
  · rw [h]
  · have hu : isBlank c.toUpper = false := by simp [isBlank]; omega
    have hc : isBlank c = false := by simp [isBlank]; omega
    rw [hu, hc]

theorem toUpper_eq_slash_iff (c : Char) : c.toUpper = '/' ↔ c = '/' := by
  rcases toUpper_eq_self_or c with h | ⟨h1, h2, h3, h4⟩
  · rw [h]
  · constructor
    · intro hc
      rw [hc] at h3
      exact absurd h3 (by decide)
    · intro hc
      rw [hc] at h1
      exact absurd h1 (by decide)

theorem dropWhile_isBlank_map_toUpper (cs : List Char) :
    (cs.map Char.toUpper).dropWhile isBlank = (cs.dropWhile isBlank).map Char.toUpper := by
  induction cs with
  | nil => rfl
  | cons c rest ih => by_cases h : isBlank c <;> simp [List.dropWhile, isBlank_toUpper, h, ih]

theorem trimBlanks_map_toUpper (cs : List Char) :
    trimBlanks (cs.map Char.toUpper) = (trimBlanks cs).map Char.toUpper := by
  simp [trimBlanks, dropTrailing, dropWhile_isBlank_map_toUpper, ← List.map_reverse]

theorem trimmed_upper {s : String} (h : Trimmed s) : Trimmed (upper s) := by
  obtain ⟨hne, htrim⟩ := h
  constructor
  · intro hu
    apply hne
    have hl : s.toList.map Char.toUpper = [] := by simpa [upper] using congrArg String.toList hu
    rw [← String.toList_inj]
    simpa using hl
  · rw [trim_eq_self_iff] at *
    simp [upper, trimBlanks_map_toUpper, htrim]

theorem slash_mem_upper_iff (s : String) : '/' ∈ (upper s).toList ↔ '/' ∈ s.toList := by
  simp [upper, List.mem_map, toUpper_eq_slash_iff]

end CallMetrics.Text
