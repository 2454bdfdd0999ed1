/-! Blank characters and trimming. `trim` removes the blanks at both ends of a text and nothing
else: its result has no blank at either end (`trim_trim`), and a text without blanks at its ends
is left alone (`trimBlanks_eq_self`). -/

namespace CallMetrics.Text

/-- The characters with the Unicode property White_Space. -/
def isBlank (c : Char) : Bool :=
  let n := c.toNat
  (9 ≤ n && n ≤ 13) || n == 0x20 || n == 0x85 || n == 0xA0 || n == 0x1680 ||
    (0x2000 ≤ n && n ≤ 0x200A) || n == 0x2028 || n == 0x2029 || n == 0x202F ||
    n == 0x205F || n == 0x3000

def dropTrailing (cs : List Char) : List Char := (cs.reverse.dropWhile isBlank).reverse

def trimBlanks (cs : List Char) : List Char := dropTrailing (cs.dropWhile isBlank)

def trim (s : String) : String := String.ofList (trimBlanks s.toList)

theorem toList_trim (s : String) : (trim s).toList = trimBlanks s.toList := by
  simp [trim]

theorem dropWhile_eq_self {p : Char → Bool} {cs : List Char} (h : ∀ c ∈ cs.head?, p c = false) :
    cs.dropWhile p = cs := by
  cases cs with
  | nil => rfl
  | cons c rest => simp [List.dropWhile, h c (by simp)]

section Run
variable {p : Char → Bool} {run rest : List Char}

theorem dropWhile_run (hrun : ∀ c ∈ run, p c = true) (hrest : ∀ c ∈ rest.head?, p c = false) :
    (run ++ rest).dropWhile p = rest := by
  rw [List.dropWhile_append_of_pos hrun, dropWhile_eq_self hrest]

theorem takeWhile_run (hrun : ∀ c ∈ run, p c = true) (hrest : ∀ c ∈ rest.head?, p c = false) :
    (run ++ rest).takeWhile p = run := by
  have hsplit := List.takeWhile_append_dropWhile (p := p) (l := run ++ rest)
  rw [dropWhile_run hrun hrest] at hsplit
  exact List.append_cancel_right hsplit

end Run

theorem head?_dropWhile_not (p : Char → Bool) (cs : List Char) :
    ∀ c ∈ (cs.dropWhile p).head?, p c = false := by
  induction cs with
  | nil => simp
  | cons c rest ih =>
    by_cases hc : p c <;> simp_all [List.dropWhile]

theorem getLast?_dropTrailing (cs : List Char) :
    ∀ c ∈ (dropTrailing cs).getLast?, isBlank c = false := by
  simpa [dropTrailing] using head?_dropWhile_not isBlank cs.reverse

theorem dropTrailing_eq_self {cs : List Char} (h : ∀ c ∈ cs.getLast?, isBlank c = false) :
    dropTrailing cs = cs := by
  have hr : ∀ c ∈ cs.reverse.head?, isBlank c = false := by simpa using h
  simp [dropTrailing, dropWhile_eq_self hr]

/-- The characters that trimming removes at the end are the last ones. -/
theorem exists_append_dropTrailing (cs : List Char) :
    ∃ tail, cs = dropTrailing cs ++ tail ∧ ∀ c ∈ tail, isBlank c = true := by
  refine ⟨(cs.reverse.takeWhile isBlank).reverse, ?_, ?_⟩
  · rw [dropTrailing, ← List.reverse_append, List.takeWhile_append_dropWhile, List.reverse_reverse]
  · intro c hc
    rw [List.mem_reverse] at hc
    exact List.all_eq_true.1 (List.all_takeWhile) c hc

theorem head?_dropTrailing {cs : List Char} (h : ∀ c ∈ cs.head?, isBlank c = false) :
    ∀ c ∈ (dropTrailing cs).head?, isBlank c = false := by
  obtain ⟨tail, hcs, -⟩ := exists_append_dropTrailing cs
  intro c hc
  apply h c
  rw [hcs]
  cases hd : dropTrailing cs with
  | nil => simp [hd] at hc
  | cons d ds => simpa [hd] using hc

theorem trimBlanks_eq_self {cs : List Char} (hhead : ∀ c ∈ cs.head?, isBlank c = false)
    (hlast : ∀ c ∈ cs.getLast?, isBlank c = false) : trimBlanks cs = cs := by
  rw [trimBlanks, dropWhile_eq_self hhead, dropTrailing_eq_self hlast]

theorem head?_trimBlanks (cs : List Char) : ∀ c ∈ (trimBlanks cs).head?, isBlank c = false :=
  head?_dropTrailing (head?_dropWhile_not isBlank cs)

theorem getLast?_trimBlanks (cs : List Char) :
    ∀ c ∈ (trimBlanks cs).getLast?, isBlank c = false :=
  getLast?_dropTrailing _

theorem trimBlanks_trimBlanks (cs : List Char) : trimBlanks (trimBlanks cs) = trimBlanks cs :=
  trimBlanks_eq_self (head?_trimBlanks cs) (getLast?_trimBlanks cs)

/-- What trimming removes is blank. -/
theorem mem_trim_iff {s : String} {c : Char} (hb : isBlank c = false) :
    c ∈ (trim s).toList ↔ c ∈ s.toList := by
  obtain ⟨tail, hrest, htail⟩ := exists_append_dropTrailing (s.toList.dropWhile isBlank)
  have hchars : s.toList = s.toList.takeWhile isBlank ++ ((trim s).toList ++ tail) := by
    rw [toList_trim, trimBlanks, ← hrest, List.takeWhile_append_dropWhile]
  have hlead : c ∉ s.toList.takeWhile isBlank := fun hc => by
    simp [List.all_eq_true.1 List.all_takeWhile c hc] at hb
  have htail : c ∉ tail := fun hc => by simp [htail c hc] at hb
  rw [hchars]
  simp [hlead, htail]

/-- A text with a character that is no blank is not trimmed away. -/
theorem trim_ne_empty {s : String} {c : Char} (hc : c ∈ s.toList) (hb : isBlank c = false) :
    trim s ≠ "" := by
  intro h
  have hmem := (mem_trim_iff hb).2 hc
  rw [h] at hmem
  cases hmem

theorem trim_trim (s : String) : trim (trim s) = trim s := by
  simp [trim, trimBlanks_trimBlanks]

theorem trim_eq_self_iff {s : String} : trim s = s ↔ trimBlanks s.toList = s.toList := by
  rw [← String.toList_inj, toList_trim]

/-- Not empty, and without blanks at its ends. -/
def Trimmed (s : String) : Prop := s ≠ "" ∧ trim s = s

instance (s : String) : Decidable (Trimmed s) := inferInstanceAs (Decidable (_ ∧ _))

theorem trimmed_trim {s : String} (h : trim s ≠ "") : Trimmed (trim s) := ⟨h, trim_trim s⟩

end CallMetrics.Text
