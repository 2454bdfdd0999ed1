import CallMetrics.Proofs.Json.Reading

/-! Compact JSON stands on one line: whatever texts are in it, no control character is written
(`le_of_mem_compactChars`). So a text of such lines says where each of them ends. -/

namespace CallMetrics

/-- The text is these lines, each with a line end behind it and none within. -/
structure IsLines (text : String) (lines : List String) : Prop where
  text_eq : text = String.join (lines.map (· ++ "\n"))
  newline_not_mem : ∀ line ∈ lines, '\n' ∉ line.toList

namespace Json

theorem le_hexDigit : ∀ n < 16, 32 ≤ (hexDigit n).toNat := by decide

theorem le_of_mem_escape {c d : Char} (h : d ∈ escape c) : 32 ≤ d.toNat := by
  have hplain : ∀ d ∈ ['\\', '"', 'n', 'r', 't', 'b', 'f', 'u', '0'], 32 ≤ d.toNat := by simp
  unfold escape at h
  split_ifs at h with hquote hbackslash hn hr ht hb hf hcontrol
  iterate 7
    · exact hplain d (by grind)
  · have hhigh := le_hexDigit (c.toNat / 16) (by omega)
    have hlow := le_hexDigit (c.toNat % 16) (by omega)
    simp only [List.mem_cons, List.not_mem_nil, or_false] at h
    rcases h with rfl | rfl | rfl | rfl | rfl | rfl
    · decide
    · decide
    · decide
    · decide
    · exact hhigh
    · exact hlow
  · obtain rfl := List.mem_singleton.1 h
    omega

theorem le_of_mem_literalChars {s : String} {c : Char} (h : c ∈ literalChars s) : 32 ≤ c.toNat := by
  simp only [literalChars, List.mem_cons, List.mem_append, List.mem_flatMap, List.not_mem_nil,
    or_false] at h
  rcases h with rfl | ⟨d, -, h⟩ | rfl
  · decide
  · exact le_of_mem_escape h
  · decide

theorem le_of_mem_intChars {n : Int} {c : Char} (h : c ∈ Text.intChars n) : 32 ≤ c.toNat := by
  have hdigit {n : Nat} (h : c ∈ Text.natChars n) : 32 ≤ c.toNat := by
    have hc := Text.isDigit_of_mem_natChars h
    simp only [Char.isDigit, Bool.and_eq_true, decide_eq_true_eq] at hc
    have hzero : '0'.toNat ≤ c.toNat := hc.1
    have h32 : 32 ≤ '0'.toNat := by decide
    omega
  cases n with
  | ofNat n => exact hdigit h
  | negSucc n =>
    rcases List.mem_cons.1 h with rfl | h
    · decide
    · exact hdigit h

theorem mem_joinWith {separator : List Char} {items : List (List Char)} {c : Char}
    (h : c ∈ joinWith separator items) : c ∈ separator ∨ ∃ item ∈ items, c ∈ item := by
  induction items with
  | nil => cases h
  | cons item rest ih =>
    cases rest with
    | nil => exact .inr ⟨item, List.mem_cons_self .., h⟩
    | cons next rest =>
      rw [joinWith, List.mem_append, List.mem_append] at h
      · rcases h with (h | h) | h
        · exact .inr ⟨item, List.mem_cons_self .., h⟩
        · exact .inl h
        · rcases ih h with h | ⟨other, hother, h⟩
          · exact .inl h
          · exact .inr ⟨other, List.mem_cons_of_mem _ hother, h⟩
      · simp

/-- No control character is written. -/
theorem le_of_mem_compactChars {v : Value} (hv : v.Expressible) {c : Char}
    (h : c ∈ compactChars v) : 32 ≤ c.toNat := by
  induction hv generalizing c with
  | null => revert c; simp [compactChars]
  | bool b => revert c; cases b <;> simp [compactChars]
  | int _ _ => exact le_of_mem_intChars h
  | text s => exact le_of_mem_literalChars h
  | @list items _ ih =>
    rw [compactChars, compactItems_eq_map] at h
    simp only [List.mem_cons, List.mem_append, List.not_mem_nil, or_false] at h
    rcases h with rfl | h | rfl
    · decide
    · rcases mem_joinWith h with h | ⟨item, hitem, h⟩
      · obtain rfl := List.mem_singleton.1 h
        decide
      · obtain ⟨v, hv, rfl⟩ := List.mem_map.1 hitem
        exact ih v hv h
    · decide
  | @record members _ ih =>
    rw [compactChars, compactMembers_eq_map] at h
    simp only [List.mem_cons, List.mem_append, List.not_mem_nil, or_false] at h
    rcases h with rfl | h | rfl
    · decide
    · rcases mem_joinWith h with h | ⟨item, hitem, h⟩
      · obtain rfl := List.mem_singleton.1 h
        decide
      · obtain ⟨e, he, rfl⟩ := List.mem_map.1 hitem
        rw [memberChars, List.mem_append, List.mem_cons] at h
        rcases h with h | rfl | h
        · exact le_of_mem_literalChars h
        · decide
        · exact ih e he h
    · decide

theorem isLines_compactLine {values : List Value} (h : ∀ v ∈ values, v.Expressible) :
    IsLines (String.join (values.map compactLine)) (values.map compact) := by
  refine ⟨?_, fun line hline hnewline => ?_⟩
  · rw [List.map_map]
    rfl
  · obtain ⟨v, hv, rfl⟩ := List.mem_map.1 hline
    rw [compact, String.toList_ofList] at hnewline
    exact absurd (le_of_mem_compactChars (h v hv) hnewline) (by decide)

end Json

end CallMetrics
