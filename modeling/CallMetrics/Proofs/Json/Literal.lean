import CallMetrics.Json.Literal
import Mathlib.Tactic.SplitIfs

/-! A literal says what it was written from. An escape says the one character it stands for
(`readUnits_escape`), and characters are no surrogates, so that their codes never pair up. -/

namespace CallMetrics.Json

theorem hexValue?_hexDigit : ∀ n < 16, hexValue? (hexDigit n) = some n := by decide

theorem hexValue4?_hexDigit {n : Nat} (h : n < 32) :
    hexValue4? '0' '0' (hexDigit (n / 16)) (hexDigit (n % 16)) = some n := by
  have hzero : hexValue? '0' = some 0 := by decide
  have hsum : ((0 * 16 + 0) * 16 + n / 16) * 16 + n % 16 = n := by omega
  simp only [hexValue4?, hzero, hexValue?_hexDigit (n / 16) (by omega),
    hexValue?_hexDigit (n % 16) (by omega), Option.bind_eq_bind, Option.bind_some, Option.pure_def,
    hsum]

/-- A character that needs no escape is read as it is. -/
theorem readUnits_plain {c : Char} (hquote : c ≠ '"') (hbackslash : c ≠ '\\') (hcode : 32 ≤ c.toNat)
    (rest : List Char) :
    readUnits (c :: rest) = (readUnits rest).map fun p => (c.toNat :: p.1, p.2) := by
  have hplain : ¬(c.toNat < 32 ∨ c = '\\') := fun h => h.elim (by omega) hbackslash
  rw [readUnits.eq_def]
  split <;> grind

theorem readUnits_escape (c : Char) (rest : List Char) :
    readUnits (escape c ++ rest) = (readUnits rest).map fun p => (c.toNat :: p.1, p.2) := by
  unfold escape
  split_ifs with hquote hbackslash h h h h h hcontrol
  · rw [hquote]; rfl
  · rw [hbackslash]; rfl
  · rw [h]; rfl
  · rw [h]; rfl
  · rw [h]; rfl
  · rw [h]; rfl
  · rw [h]; rfl
  · simp only [List.cons_append, List.nil_append, readUnits, hexValue4?_hexDigit hcontrol]
  · exact readUnits_plain hquote hbackslash (by omega) rest

theorem readUnits_flatMap_escape (cs rest : List Char) :
    readUnits (cs.flatMap escape ++ '"' :: rest) = some (cs.map Char.toNat, rest) := by
  induction cs with
  | nil => rfl
  | cons c cs ih =>
    rw [List.flatMap_cons, List.append_assoc, readUnits_escape, ih]
    rfl

theorem isSurrogate_toNat (c : Char) :
    isHighSurrogate c.toNat = false ∧ isLowSurrogate c.toNat = false := by
  have hvalid : c.toNat < 0xD800 ∨ 0xDFFF < c.toNat ∧ c.toNat < 0x110000 := c.valid
  simp only [isHighSurrogate, isLowSurrogate, Bool.and_eq_false_iff, decide_eq_false_iff_not]
  omega

theorem joinUnits_map_toNat (cs : List Char) : joinUnits (cs.map Char.toNat) = some cs := by
  induction cs with
  | nil => rfl
  | cons c cs ih =>
    obtain ⟨hhigh, hlow⟩ := isSurrogate_toNat c
    cases cs with
    | nil => simp [joinUnits, hhigh, hlow]
    | cons c' cs =>
      rw [List.map_cons] at ih
      simp [joinUnits, hhigh, hlow, ih]

theorem readLiteral_escape (s : String) (rest : List Char) :
    readLiteral (s.toList.flatMap escape ++ '"' :: rest) = some (some s.toList, rest) := by
  rw [readLiteral, readUnits_flatMap_escape]
  exact congrArg (fun text => some (text, rest)) (joinUnits_map_toNat s.toList)

end CallMetrics.Json
