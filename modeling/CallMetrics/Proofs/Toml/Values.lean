import CallMetrics.Proofs.Toml.Quoting
import CallMetrics.Text.Blank
import CallMetrics.Toml.Reader

/-! Values of settings and their names are read back. A value stands at the end of a line
(`readValue_chars`); the items of a list may stand on lines of their own. -/

namespace CallMetrics.Toml
open Text

def Plain.toValue : Plain → Value
  | nat n => .int n
  | bool b => .bool b
  | text s => .text s
  | texts items => .list (items.map .text)

/-- Neither a blank nor the start of a comment nor the end of a line. -/
def StartsContent (c : Char) : Prop := c ∉ [' ', '\t', '#', '\n', '\r']

instance (c : Char) : Decidable (StartsContent c) := inferInstanceAs (Decidable (c ∉ _))

section Lines
variable {c : Char} (hc : StartsContent c)
include hc

theorem skipBlanks_content (cs : List Char) : skipBlanks (c :: cs) = c :: cs := by
  refine dropWhile_eq_self fun d hd => ?_
  rw [← Option.some.inj hd]
  simp [StartsContent] at hc
  simp [isBlankChar, hc]

theorem lineEnd?_skipComment_content (cs : List Char) : lineEnd? (skipComment (c :: cs)) = none := by
  have hcomment : skipComment (c :: cs) = c :: cs := by
    rw [skipComment, skipBlanks_content hc]
    split
    next h => simp_all [StartsContent]
    next => rfl
  rw [hcomment, lineEnd?.eq_def]
  split <;> simp_all [StartsContent]

theorem skipLines_content (fuel : Nat) (cs : List Char) : skipLines fuel (c :: cs) = c :: cs := by
  cases fuel with
  | zero => rfl
  | succ fuel =>
    rw [skipLines, lineEnd?_skipComment_content hc]
    exact skipBlanks_content hc cs

end Lines

theorem skipLines_newLine (fuel : Nat) (cs : List Char) :
    skipLines (fuel + 1) ('\n' :: cs) = skipLines fuel cs := rfl

theorem skipLines_blanks {blanks : List Char} (h : ∀ c ∈ blanks, isBlankChar c = true) (fuel : Nat)
    (cs : List Char) : skipLines (fuel + 1) (blanks ++ cs) = skipLines (fuel + 1) cs := by
  have hblanks : skipBlanks (blanks ++ cs) = skipBlanks cs := List.dropWhile_append_of_pos h
  rw [skipLines, skipLines, skipComment, skipComment, hblanks]

section Number
variable {digits : List Char} (hdigits : ∀ c ∈ digits, c.isDigit = true)
include hdigits

theorem after?_digits {c : Char} (hc : c.isDigit = false) : after? c digits = none := by
  cases digits with
  | nil => rfl
  | cons d rest =>
    have hne : d ≠ c := by
      rintro rfl
      exact absurd (hdigits d List.mem_cons_self) (by simp [hc])
    exact if_neg hne

/-- Digits alone are no date and no time. -/
theorem isMoment_digits : isMoment digits = false := by
  have hdrop (n : Nat) : ∀ c ∈ digits.drop n, c.isDigit = true := fun c hc =>
    hdigits c (List.mem_of_mem_drop hc)
  have hdate : afterDate? digits = none := by
    rw [afterDate?, readFixed?]
    split
    · simp [after?_digits (hdrop 4) (by decide : '-'.isDigit = false)]
    · rfl
  have htime : afterTime? digits = none := by
    rw [afterTime?, afterMinutes?, readFixed?]
    split
    · simp [after?_digits (hdrop 2) (by decide : ':'.isDigit = false)]
    · rfl
  rw [isMoment, hdate, htime]
  rfl

theorem grouped_digits (p : Char → Bool) : grouped p digits = true := by
  induction digits with
  | nil => rfl
  | cons c rest ih =>
    have hunderscore : ∀ d ∈ c :: rest, d ≠ '_' := by
      rintro d hd rfl
      exact absurd (hdigits '_' hd) (by decide)
    have hrest := ih fun d hd => hdigits d (List.mem_cons_of_mem c hd)
    rw [grouped.eq_def]
    split <;> simp_all

end Number

theorem not_mem_natChars {c : Char} (hc : c.isDigit = false) (n : Nat) : c ∉ natChars n := by
  intro h
  rw [isDigit_of_mem_natChars h] at hc
  cases hc

theorem isInteger_natChars (n : Nat) : Number.isInteger (natChars n) = true := by
  by_cases hzero : n = 0
  · subst hzero
    decide
  · have hdigits : ∀ c ∈ natChars n, c.isDigit = true := fun c hc => isDigit_of_mem_natChars hc
    have hrest : (natChars n ++ []).dropWhile Char.isDigit = [] := dropWhile_run hdigits (by simp)
    rw [List.append_nil] at hrest
    have hfirst : (natChars n).head?.any (fun c => c.isDigit && c != '0') = true := by
      obtain ⟨c, cs, hchars, hdigit⟩ := exists_cons_natChars n
      have hne : c ≠ '0' := fun h => hzero (eq_zero_of_head?_natChars (by simp [hchars, h]))
      simp [hchars, hdigit, hne]
    simp [Number.isInteger, hrest, hfirst, grouped_digits hdigits]

theorem ofDecimal?_natChars (n : Nat) :
    Number.ofDecimal? false (natChars n) = some (.integer n) := by
  have hwords : ¬(natChars n = ['i', 'n', 'f'] ∨ natChars n = ['n', 'a', 'n']) := by
    have hletter := not_mem_natChars (by decide : 'n'.isDigit = false) n
    rintro (h | h)
    · simp [h] at hletter
    · simp [h] at hletter
  have hmarks : (natChars n).any ['.', 'e', 'E'].contains = false := by
    rw [List.any_eq_false]
    intro c hc hmark
    have hmark' : c ∈ ['.', 'e', 'E'] := List.contains_iff_mem.1 hmark
    have hnot : ['.', 'e', 'E'].any Char.isDigit = false := by decide
    exact List.any_eq_false.1 hnot c hmark' (isDigit_of_mem_natChars hc)
  have hungrouped : ungrouped (natChars n) = natChars n := by
    rw [ungrouped, List.filter_eq_self]
    intro c hc
    have hne : c ≠ '_' := fun h => not_mem_natChars (by decide : '_'.isDigit = false) n (h ▸ hc)
    simpa using hne
  have hdigits : (natChars n).all Char.isDigit = true :=
    List.all_eq_true.2 fun c hc => isDigit_of_mem_natChars hc
  rw [Number.ofDecimal?, if_neg hwords, hmarks, isInteger_natChars, hungrouped]
  simp [hdigits, ofDigits_natChars]

theorem read?_natChars (n : Nat) : Number.read? (natChars n) = some (.integer n) := by
  rw [← ofDecimal?_natChars, Number.read?.eq_def]
  split
  next h => exact absurd (by simp [h]) (not_mem_natChars (by decide : 'x'.isDigit = false) n)
  next h => exact absurd (by simp [h]) (not_mem_natChars (by decide : 'o'.isDigit = false) n)
  next h => exact absurd (by simp [h]) (not_mem_natChars (by decide : 'b'.isDigit = false) n)
  next h => exact absurd (by simp [h]) (not_mem_natChars (by decide : '+'.isDigit = false) n)
  next h => exact absurd (by simp [h]) (not_mem_natChars (by decide : '-'.isDigit = false) n)
  next => rfl

theorem splitScalar_word {word rest : List Char} (hword : ∀ c ∈ word, isWordChar c = true)
    {fuel : Nat} (hfuel : 0 < fuel) : splitScalar fuel (word ++ '\n' :: rest) = (word, '\n' :: rest) := by
  obtain ⟨fuel, rfl⟩ : ∃ n, fuel = n + 1 := ⟨fuel - 1, by omega⟩
  have hend : ∀ c ∈ ('\n' :: rest).head?, isWordChar c = false := by
    intro c hc
    rw [← Option.some.inj hc]
    decide
  -- a date may go on behind a blank, but not on the next line
  have hmore : skipBlanks ('\n' :: rest) = '\n' :: rest := rfl
  simp only [splitScalar, takeWhile_run hword hend, dropWhile_run hword hend, hmore, ne_eq,
    not_true_eq_false, false_and, if_false]

theorem readScalar_nat (n : Nat) (rest : List Char) :
    readScalar (natChars n ++ '\n' :: rest) = some (.int n, '\n' :: rest) := by
  have hword : ∀ c ∈ natChars n, isWordChar c = true := by
    intro c hc
    have hmarks : ['=', ',', '[', ']', '\x7b', '\x7d', '#', ' ', '\t', '\r', '\n'].any
        Char.isDigit = false := by decide
    exact decide_eq_true fun h => List.any_eq_false.1 hmarks c h (isDigit_of_mem_natChars hc)
  have htrue : natChars n ≠ ['t', 'r', 'u', 'e'] := fun h =>
    not_mem_natChars (by decide : 't'.isDigit = false) n (by simp [h])
  have hfalse : natChars n ≠ ['f', 'a', 'l', 's', 'e'] := fun h =>
    not_mem_natChars (by decide : 'f'.isDigit = false) n (by simp [h])
  have hmoment : isMoment (natChars n) = false :=
    isMoment_digits fun c hc => isDigit_of_mem_natChars hc
  rw [readScalar, splitScalar_word hword (by rw [List.length_append, List.length_cons]; omega)]
  simp [htrue, hfalse, hmoment, read?_natChars]

theorem readScalar_bool (b : Bool) (rest : List Char) :
    readScalar ((Plain.bool b).chars ++ '\n' :: rest) = some (.bool b, '\n' :: rest) := by
  cases b with
  | false =>
    rw [Plain.chars, readScalar, splitScalar_word (List.all_eq_true.1 rfl) (by simp)]
    rfl
  | true =>
    rw [Plain.chars, readScalar, splitScalar_word (List.all_eq_true.1 rfl) (by simp)]
    rfl

theorem exists_cons_textChars (s : String) :
    ∃ c cs, textChars s = c :: cs ∧ (c = '"' ∨ c = '\x27') := by
  rw [textChars]
  cases quoting s.toList with
  | basic => exact ⟨_, _, rfl, .inl rfl⟩
  | literal => exact ⟨_, _, rfl, .inr rfl⟩
  | multiBasic => exact ⟨_, _, rfl, .inl rfl⟩
  | multiLiteral => exact ⟨_, _, rfl, .inr rfl⟩

theorem readValue_text (s : String) {rest : List Char} (hrest : EndsText rest) (fuel depth : Nat) :
    readValue (fuel + 1) depth (textChars s ++ rest) = some (.text s, rest) := by
  have htext := readText_textChars s hrest
  obtain ⟨c, cs, hchars, hc⟩ := exists_cons_textChars s
  rw [hchars] at htext ⊢
  rcases hc with rfl | rfl
  · simp only [List.cons_append, readValue] at htext ⊢
    simp [htext]
  · simp only [List.cons_append, readValue] at htext ⊢
    simp [htext]

theorem startsContent_quote {c : Char} (h : c = '"' ∨ c = '\x27') : StartsContent c := by
  rcases h with rfl | rfl <;> decide

theorem skipLines_textChars (fuel : Nat) (s : String) (rest : List Char) :
    skipLines fuel (textChars s ++ rest) = textChars s ++ rest := by
  obtain ⟨c, cs, hchars, hc⟩ := exists_cons_textChars s
  rw [hchars, List.cons_append]
  exact skipLines_content (startsContent_quote hc) _ _

section Items
variable (depth fuel : Nat) (s : String) (rest : List Char)

/-- The items of a list begin with a text; a comma follows it if there are more of them. -/
theorem readItems_text :
    readItems (fuel + 2) depth (textChars s ++ ',' :: rest) =
        (readItems (fuel + 1) depth rest).map (fun p => (.text s :: p.1, p.2)) ∧
      readItems (fuel + 2) depth (textChars s ++ ']' :: rest) = some ([.text s], rest) := by
  have hends (next : Char) (h : next = ',' ∨ next = ']') : EndsText (next :: rest) := by
    rcases h with rfl | rfl <;> simp [EndsText]
  have hvalue (next : Char) (h : next = ',' ∨ next = ']') :=
    readValue_text s (hends next h) fuel depth
  have hlines (next : Char) := skipLines_textChars (textChars s ++ next :: rest).length s (next :: rest)
  have hcomma (fuel : Nat) := skipLines_content (by decide : StartsContent ',') fuel rest
  have hbracket (fuel : Nat) := skipLines_content (by decide : StartsContent ']') fuel rest
  -- the reader looks at the first quote for the end of the list, before it reads the text
  obtain ⟨c, cs, hchars, hc⟩ := exists_cons_textChars s
  constructor
  · rw [readItems, hlines]
    simp only [hchars, List.cons_append] at hvalue ⊢
    rcases hc with rfl | rfl <;> simp [hvalue, hcomma]
  · rw [readItems, hlines]
    simp only [hchars, List.cons_append] at hvalue ⊢
    rcases hc with rfl | rfl <;> simp [hvalue, hbracket]

/-- Items are looked for on the next line with content. -/
theorem readItems_newLine {blanks cs : List Char} {c : Char}
    (hblanks : ∀ c ∈ blanks, isBlankChar c = true) (hc : StartsContent c) :
    readItems (fuel + 1) depth ('\n' :: (blanks ++ c :: cs)) =
      readItems (fuel + 1) depth (c :: cs) := by
  have hlines : skipLines ('\n' :: (blanks ++ c :: cs)).length ('\n' :: (blanks ++ c :: cs)) =
      c :: cs := by
    rw [List.length_cons, skipLines_newLine, List.length_append, List.length_cons, ← Nat.add_assoc,
      skipLines_blanks hblanks, skipLines_content hc]
  rw [readItems, readItems, hlines, skipLines_content hc]

end Items

theorem isBlankChar_of_mem_indent {depth : Nat} : ∀ c ∈ Json.indent depth, isBlankChar c = true := by
  intro c hc
  rw [List.eq_of_mem_replicate hc]
  rfl

/-- Items on lines of their own, a comma behind each. -/
theorem readItems_lines (depth : Nat) (items : List String) (rest : List Char) (fuel : Nat)
    (hfuel : items.length < fuel) :
    readItems fuel depth ('\n' :: (items.flatMap
        (fun s => Json.indent 2 ++ textChars s ++ [',', '\n']) ++ ']' :: rest)) =
      some (items.map .text, rest) := by
  obtain ⟨fuel, rfl⟩ : ∃ n, fuel = n + 1 := ⟨fuel - 1, by omega⟩
  induction items generalizing fuel with
  | nil =>
    have hnone : ∀ c ∈ ([] : List Char), isBlankChar c = true := by simp
    have hbracket : StartsContent ']' := by decide
    rw [List.flatMap_nil, readItems_newLine depth fuel hnone hbracket, readItems,
      skipLines_content hbracket]
    rfl
  | cons s items ih =>
    rw [List.length_cons] at hfuel
    obtain ⟨fuel, rfl⟩ : ∃ n, fuel = n + 1 := ⟨fuel - 1, by omega⟩
    have hitems := ih fuel (by omega)
    obtain ⟨c, cs, hchars, hc⟩ := exists_cons_textChars s
    have hline (tail : List Char) :
        readItems (fuel + 2) depth ('\n' :: (Json.indent 2 ++ (textChars s ++ tail))) =
          readItems (fuel + 2) depth (textChars s ++ tail) := by
      rw [hchars]
      exact readItems_newLine depth (fuel + 1) isBlankChar_of_mem_indent (startsContent_quote hc)
    simp only [List.flatMap_cons, List.append_assoc, List.cons_append, List.nil_append] at hitems ⊢
    rw [hline, (readItems_text depth fuel s _).1, hitems]
    rfl

theorem readValue_texts (items : List String) (rest : List Char) (fuel depth : Nat)
    (hfuel : items.length + 2 ≤ fuel) :
    readValue fuel (depth + 1) ((Plain.texts items).chars ++ rest) =
      some (.list (items.map .text), rest) := by
  obtain ⟨fuel, rfl⟩ : ∃ n, fuel = n + 2 := ⟨fuel - 2, by omega⟩
  have hbrackets (inside : List Char) (h : readItems (fuel + 1) depth (inside ++ ']' :: rest) =
      some (items.map .text, rest)) :
      readValue (fuel + 2) (depth + 1) ('[' :: (inside ++ ']' :: rest)) =
        some (.list (items.map .text), rest) := by
    rw [readValue, h]
    rfl
  rw [Plain.chars]
  rcases items with _ | ⟨s, _ | ⟨s', more⟩⟩
  · exact hbrackets [] (by rw [List.nil_append, readItems, skipLines_content (by decide)]; rfl)
  · obtain ⟨fuel, rfl⟩ : ∃ n, fuel = n + 1 := ⟨fuel - 1, by simp at hfuel; omega⟩
    have hsingle := hbrackets (textChars s) (readItems_text depth fuel s rest).2
    simpa [listChars] using hsingle
  · have hlines := readItems_lines depth (s :: s' :: more) rest (fuel + 1) (by omega)
    rw [← List.cons_append] at hlines
    have hmany := hbrackets _ hlines
    simpa [listChars, List.flatMap_map] using hmany

theorem readValue_scalar {c : Char} (hc : c ∉ ['"', '\x27', '[', '\x7b']) (fuel depth : Nat)
    (cs : List Char) : readValue (fuel + 1) depth (c :: cs) = readScalar (c :: cs) := by
  rw [readValue.eq_def]
  simp only [List.mem_cons, not_or] at hc
  split <;> simp_all

theorem length_texts (items : List String) :
    items.length + 2 ≤ (Plain.texts items).chars.length := by
  rw [Plain.chars]
  rcases items with _ | ⟨s, _ | ⟨s', more⟩⟩
  · simp [listChars]
  · obtain ⟨c, cs, hchars, -⟩ := exists_cons_textChars s
    simp [listChars, hchars]
  · have hlines (items : List String) : items.length ≤
        (items.flatMap fun s => Json.indent 2 ++ textChars s ++ [',', '\n']).length := by
      induction items with
      | nil => simp
      | cons s items ih =>
        simp only [List.flatMap_cons, List.length_append, List.length_cons] at ih ⊢
        omega
    have hmany := hlines (s :: s' :: more)
    simp [listChars, List.flatMap_map] at hmany ⊢
    omega

/-- A value at the end of a line is read back. -/
theorem readValue_chars (p : Plain) (rest : List Char) (fuel depth : Nat)
    (hfuel : p.chars.length ≤ fuel) :
    readValue fuel (depth + 1) (p.chars ++ '\n' :: rest) = some (p.toValue, '\n' :: rest) := by
  have hsucc {c : Char} {cs : List Char} (h : p.chars = c :: cs) : ∃ n, fuel = n + 1 :=
    ⟨fuel - 1, by simp [h] at hfuel; omega⟩
  cases p with
  | nat n =>
    obtain ⟨c, cs, hchars, hdigit⟩ := exists_cons_natChars n
    have hmarks : ['"', '\x27', '[', '\x7b'].any Char.isDigit = false := by decide
    have hc : c ∉ ['"', '\x27', '[', '\x7b'] := fun h => List.any_eq_false.1 hmarks c h hdigit
    obtain ⟨fuel, rfl⟩ := hsucc hchars
    have hscalar := readScalar_nat n rest
    rw [Plain.chars]
    rw [hchars] at hscalar ⊢
    exact (readValue_scalar hc fuel (depth + 1) _).trans hscalar
  | bool b =>
    have hscalar := readScalar_bool b rest
    cases b with
    | false =>
      obtain ⟨fuel, rfl⟩ := hsucc rfl
      exact (readValue_scalar (by decide) fuel (depth + 1) _).trans hscalar
    | true =>
      obtain ⟨fuel, rfl⟩ := hsucc rfl
      exact (readValue_scalar (by decide) fuel (depth + 1) _).trans hscalar
  | text s =>
    obtain ⟨c, cs, hchars, -⟩ := exists_cons_textChars s
    obtain ⟨fuel, rfl⟩ := hsucc hchars
    exact readValue_text s (by simp [EndsText]) fuel (depth + 1)
  | texts items =>
    exact readValue_texts items _ fuel depth (Nat.le_trans (length_texts items) hfuel)

/-- A name that is written without quotes. -/
def Bare (name : String) : Prop := name.toList ≠ [] ∧ name.toList.all isBareKeyChar = true

instance (name : String) : Decidable (Bare name) := inferInstanceAs (Decidable (_ ∧ _))

theorem Bare.exists_cons {name : String} (h : Bare name) :
    ∃ c cs, name.toList = c :: cs ∧ isBareKeyChar c = true := by
  obtain ⟨c, cs, hchars⟩ := List.exists_cons_of_ne_nil h.1
  exact ⟨c, cs, hchars, List.all_eq_true.1 h.2 c (by simp [hchars])⟩

theorem startsContent_of_isBareKeyChar {c : Char} (h : isBareKeyChar c = true) :
    StartsContent c ∧ c ≠ '"' ∧ c ≠ '\x27' ∧ c ≠ '[' := by
  have hmarks : [' ', '\t', '#', '\n', '\r', '"', '\x27', '['].any isBareKeyChar = false := by decide
  have hne : ∀ d ∈ [' ', '\t', '#', '\n', '\r', '"', '\x27', '['], c ≠ d := by
    rintro d hd rfl
    exact List.any_eq_false.1 hmarks c hd h
  simp [StartsContent, hne]

theorem readKeyPart_bare {name : String} (hname : Bare name) {rest : List Char}
    (hrest : ∀ c ∈ rest.head?, isBareKeyChar c = false) :
    readKeyPart (name.toList ++ rest) = some (name, rest) := by
  have hbare : ∀ c ∈ name.toList, isBareKeyChar c = true := List.all_eq_true.1 hname.2
  have hquotes (c : Char) (cs : List Char) (h : name.toList ++ rest = c :: cs) :
      c ≠ '"' ∧ c ≠ '\x27' := by
    obtain ⟨d, ds, hchars, hd⟩ := hname.exists_cons
    rw [hchars, List.cons_append] at h
    rw [← (List.cons.inj h).1]
    exact (startsContent_of_isBareKeyChar hd).2.imp id And.left
  unfold readKeyPart
  split
  next h => exact absurd rfl (hquotes _ _ h).1
  next h => exact absurd rfl (hquotes _ _ h).2
  next =>
    simp only [takeWhile_run hbare hrest, dropWhile_run hbare hrest, if_neg hname.1,
      String.ofList_toList]

/-- A bare name is read as a key of one part, up to what follows it and blanks. -/
theorem readKey_bare {name : String} (hname : Bare name) {rest after : List Char} {c : Char}
    (hrest : ∀ c ∈ rest.head?, isBareKeyChar c = false) (hskip : skipBlanks rest = c :: after)
    (hc : c ≠ '.') : readKey (name.toList ++ rest) = some ([name], c :: after) := by
  have hpart := readKeyPart_bare hname hrest
  have hblanks : skipBlanks (name.toList ++ rest) = name.toList ++ rest := by
    obtain ⟨d, ds, hchars, hd⟩ := hname.exists_cons
    rw [hchars, List.cons_append, skipBlanks_content (startsContent_of_isBareKeyChar hd).1]
  rw [readKey, maxKeyParts, readParts, hblanks, hpart]
  simp only [hskip]
  split
  next h => exact absurd (List.cons.inj h).1 hc
  next => rfl

end CallMetrics.Toml
