import CallMetrics.Toml.Lexeme
import CallMetrics.Toml.Writer
import Mathlib.Tactic.SplitIfs

/-! Quoted texts are read back, in each kind of quotes (`readText_textChars`). Between triple quotes a
reader looks ahead at quotes; what is written never shows it three of them before the end. -/

namespace CallMetrics.Toml

/-- What may stand behind a quoted text. -/
def EndsText (rest : List Char) : Prop := ∀ c ∈ rest.head?, c ≠ '"' ∧ c ≠ '\x27'

theorem hexValue?_upperHexDigit : ∀ n < 16, Json.hexValue? (upperHexDigit n) = some n := by decide

theorem scalar4?_upperHexDigit {c : Char} (h : c.toNat < 128) :
    scalar4? '0' '0' (upperHexDigit (c.toNat / 16)) (upperHexDigit (c.toNat % 16)) = some c := by
  have hzero : Json.hexValue? '0' = some 0 := by decide
  have hsum : ((0 * 16 + 0) * 16 + c.toNat / 16) * 16 + c.toNat % 16 = c.toNat := by omega
  have hvalid : c.toNat.isValidChar := c.valid
  simp only [scalar4?, Json.hexValue4?, hzero, hexValue?_upperHexDigit (c.toNat / 16) (by omega),
    hexValue?_upperHexDigit (c.toNat % 16) (by omega), Option.bind_eq_bind, Option.bind_some,
    Option.pure_def, hsum, scalar?, if_pos hvalid, Char.ofNat_toNat]

/-- A character stands for itself, or is escaped by a letter or by its code. -/
theorem escape_cases (c : Char) :
    (escape c = [c] ∧ c ≠ '\\' ∧ c ≠ '\r' ∧ isLineChar c = true) ∨
    (∃ x, escape c = ['\\', x] ∧ x ∉ ['x', 'u', 'U'] ∧ unescape? x = some c) ∨
    (escape c = ['\\', 'u', '0', '0', upperHexDigit (c.toNat / 16), upperHexDigit (c.toNat % 16)] ∧
      c.toNat < 128) := by
  have hcode {n : Nat} (h : c.toNat = n) : some (Char.ofNat n) = some c := by
    rw [← h, Char.ofNat_toNat]
  unfold escape
  split_ifs with hbackslash h hreturn h hbackspace hfeed hcontrol
  · exact .inr (.inl ⟨'\\', rfl, by decide, by rw [hbackslash]; rfl⟩)
  · exact .inr (.inl ⟨'n', rfl, by decide, by rw [h]; rfl⟩)
  · exact .inr (.inl ⟨'r', rfl, by decide, by rw [hreturn]; rfl⟩)
  · exact .inr (.inl ⟨'t', rfl, by decide, by rw [h]; rfl⟩)
  · exact .inr (.inl ⟨'b', rfl, by decide, hcode hbackspace⟩)
  · exact .inr (.inl ⟨'f', rfl, by decide, hcode hfeed⟩)
  · exact .inr (.inr ⟨rfl, by omega⟩)
  · exact .inl ⟨rfl, hbackslash, hreturn, by simp [isLineChar]; omega⟩

theorem readBasic_escape {c : Char} (hquote : c ≠ '"') (rest : List Char) :
    readBasic (escape c ++ rest) = (readBasic rest).map (cons c) := by
  rcases escape_cases c with ⟨h, hbackslash, -, hline⟩ | ⟨x, h, hx, hunescape⟩ | ⟨h, hcode⟩
  · rw [h, List.singleton_append, readBasic.eq_def]
    split <;> simp_all
  · rw [h, List.cons_append, List.singleton_append, readBasic.eq_def]
    split <;> grind
  · rw [h]
    simp only [List.cons_append, List.nil_append, readBasic, scalar4?_upperHexDigit hcode]

theorem readMultiBasic_escape {c : Char} (hquote : c ≠ '"') (rest : List Char) :
    readMultiBasic false (escape c ++ rest) = (readMultiBasic false rest).map (cons c) := by
  rcases escape_cases c with ⟨h, hbackslash, hreturn, hline⟩ | ⟨x, h, hx, hunescape⟩ | ⟨h, hcode⟩
  · rw [h, List.singleton_append, readMultiBasic.eq_def]
    split <;> simp_all
  · rw [h, List.cons_append, List.singleton_append, readMultiBasic.eq_def]
    split <;> grind
  · rw [h]
    simp only [List.cons_append, List.nil_append, readMultiBasic, scalar4?_upperHexDigit hcode]

theorem readBasic_basicChars (cs rest : List Char) (run : Nat) :
    readBasic (basicChars false run cs ++ '"' :: rest) = some (cs, rest) := by
  induction cs generalizing run with
  | nil => rfl
  | cons c cs ih =>
    by_cases hquote : c = '"'
    · subst hquote
      simp only [basicChars, if_true, Bool.false_and, Bool.false_eq_true, if_false,
        List.cons_append]
      rw [readBasic.eq_def]
      simp [ih, unescape?, cons]
    · simp only [basicChars, if_neg hquote, Bool.false_and, Bool.false_eq_true, if_false,
        List.append_assoc]
      rw [readBasic_escape hquote, ih]
      rfl

/-- Only between triple quotes a quote is written as it is, unless it is the third in a row. -/
theorem basicChars_cons_ne {multi : Bool} {c : Char} {run : Nat}
    (h : c ≠ '"' ∨ (multi = true → 2 ≤ run)) (cs rest tail : List Char) :
    basicChars multi run (c :: cs) ++ rest ≠ '"' :: tail := by
  rw [basicChars]
  by_cases hquote : c = '"'
  · have hrun : (multi && decide (run < 2)) = false := by
      have htwo := h.resolve_left (not_not_intro hquote)
      cases multi with
      | false => rfl
      | true =>
        have hle := htwo rfl
        exact decide_eq_false (by omega)
    rw [if_pos hquote, if_neg (by rw [hrun]; exact Bool.false_ne_true)]
    simp
  · by_cases hline : multi = true ∧ c = '\n'
    · simp [hline]
    · rcases escape_cases c with ⟨hescape, -⟩ | ⟨x, hescape, -⟩ | ⟨hescape, -⟩
      all_goals simp [hquote, hline, hescape]

/-- Two quotes in a row behind a quote are the end, or one quote before it. -/
theorem eq_of_basicChars_quotes {cs rest tail : List Char} {run : Nat}
    (h : basicChars true (run + 1) cs ++ '"' :: rest = '"' :: '"' :: tail) :
    cs = [] ∨ run = 0 ∧ cs = ['"'] := by
  cases cs with
  | nil => exact .inl rfl
  | cons c cs =>
    by_cases hfirst : c ≠ '"' ∨ (true = true → 2 ≤ run + 1)
    · exact absurd h (basicChars_cons_ne hfirst cs _ _)
    · obtain ⟨hquote, hrun⟩ := not_or.1 hfirst
      have hzero : run = 0 := by
        have hlt : ¬2 ≤ run + 1 := fun h => hrun fun _ => h
        omega
      have hc : c = '"' := Decidable.of_not_not hquote
      subst hzero hc
      cases cs with
      | nil => exact .inr ⟨rfl, rfl⟩
      | cons c cs =>
        have hsecond : basicChars true 2 (c :: cs) ++ '"' :: rest = '"' :: tail := by
          simpa [basicChars] using h
        exact absurd hsecond (basicChars_cons_ne (.inr fun _ => Nat.le_refl 2) cs _ _)

/-- A quote that begins no three of them is read as it is. -/
theorem readMultiBasic_quote {cs : List Char} (h : ∀ tail, cs ≠ '"' :: '"' :: tail) :
    readMultiBasic false ('"' :: cs) = (readMultiBasic false cs).map (cons '"') := by
  have hline : isLineChar '"' = true := by decide
  rw [readMultiBasic.eq_def]
  split <;> grind

section MultiBasic
variable {rest : List Char} (hrest : ∀ c ∈ rest.head?, c ≠ '"')
include hrest

theorem readMultiBasic_close :
    readMultiBasic false ('"' :: '"' :: '"' :: rest) = some ([], rest) ∧
      readMultiBasic false ('"' :: '"' :: '"' :: '"' :: rest) = some (['"'], rest) := by
  cases rest with
  | nil => exact ⟨rfl, rfl⟩
  | cons c cs =>
    have hc : c ≠ '"' := hrest c rfl
    constructor
    · rw [readMultiBasic.eq_def]
      split <;> grind
    · rw [readMultiBasic.eq_def]
      split <;> grind

theorem readMultiBasic_basicChars (cs : List Char) (run : Nat) :
    readMultiBasic false (basicChars true run cs ++ '"' :: '"' :: '"' :: rest) =
      some (cs, rest) := by
  obtain ⟨hclose, hcloseOne⟩ := readMultiBasic_close hrest
  induction cs generalizing run with
  | nil => exact hclose
  | cons c cs ih =>
    by_cases hquote : c = '"'
    · subst hquote
      by_cases hrun : run < 2
      · have hchars : basicChars true run ('"' :: cs) = '"' :: basicChars true (run + 1) cs := by
          simp [basicChars, hrun]
        rw [hchars, List.cons_append]
        -- three quotes in a row are the end of the text, with or without one quote before it
        by_cases hquotes : ∃ tail,
            basicChars true (run + 1) cs ++ '"' :: '"' :: '"' :: rest = '"' :: '"' :: tail
        · obtain ⟨tail, htail⟩ := hquotes
          rcases eq_of_basicChars_quotes htail with rfl | ⟨rfl, rfl⟩
          · exact hcloseOne
          · rfl
        · rw [readMultiBasic_quote fun tail htail => hquotes ⟨tail, htail⟩, ih]
          rfl
      · have hchars : basicChars true run ('"' :: cs) = '\\' :: '"' :: basicChars true 0 cs := by
          simp [basicChars, hrun]
        rw [hchars, List.cons_append, List.cons_append, readMultiBasic.eq_def]
        simp [ih, unescape?, cons]
    · by_cases hline : c = '\n'
      · subst hline
        have hchars : basicChars true run ('\n' :: cs) = '\n' :: basicChars true 0 cs := by
          simp [basicChars]
        rw [hchars, List.cons_append, readMultiBasic.eq_def]
        simp [ih, cons]
      · have hchars : basicChars true run (c :: cs) = escape c ++ basicChars true 0 cs := by
          simp [basicChars, hquote, hline]
        rw [hchars, List.append_assoc, readMultiBasic_escape hquote, ih]
        rfl

end MultiBasic

theorem readPlain_append {cs : List Char} (hcs : ∀ c ∈ cs, isLineChar c = true ∧ c ≠ '\x27')
    (rest : List Char) : readPlain (cs ++ '\x27' :: rest) = some (cs, rest) := by
  induction cs with
  | nil => rfl
  | cons c cs ih =>
    obtain ⟨hline, hquote⟩ := hcs c (by simp)
    rw [List.cons_append, readPlain.eq_def]
    split <;> simp_all [cons]

theorem le_longestRun (q : Char) (run : Nat) (cs : List Char) : run ≤ longestRun q run cs := by
  induction cs generalizing run with
  | nil => exact Nat.le_refl run
  | cons c cs ih =>
    rw [longestRun]
    split
    · exact Nat.le_trans (Nat.le_succ run) (ih (run + 1))
    · exact Nat.le_max_left _ _

theorem longestRun_cons_self (q : Char) (run : Nat) (cs : List Char) :
    longestRun q run (q :: cs) = longestRun q (run + 1) cs := if_pos rfl

/-- Two quotes in a row behind a quote are the end, or one quote before it. -/
theorem eq_of_quotes {q : Char} {cs rest tail : List Char} {run : Nat}
    (hruns : longestRun q (run + 1) cs ≤ 2) (h : cs ++ q :: rest = q :: q :: tail) :
    cs = [] ∨ cs = [q] := by
  cases cs with
  | nil => exact .inl rfl
  | cons c cs =>
    have hc : c = q := (List.cons.inj h).1
    subst hc
    cases cs with
    | nil => exact .inr rfl
    | cons c' cs =>
      have hc' : c' = c := (List.cons.inj (List.cons.inj h).2).1
      subst hc'
      rw [longestRun_cons_self, longestRun_cons_self] at hruns
      have hrun := le_longestRun c' (run + 1 + 1 + 1) cs
      omega

/-- A quote that begins no three of them is read as it is. -/
theorem readMultiPlain_quote {cs : List Char} (h : ∀ tail, cs ≠ '\x27' :: '\x27' :: tail) :
    readMultiPlain ('\x27' :: cs) = (readMultiPlain cs).map (cons '\x27') := by
  have hline : isLineChar '\x27' = true := by decide
  rw [readMultiPlain.eq_def]
  split <;> grind

section MultiPlain
variable {rest : List Char} (hrest : ∀ c ∈ rest.head?, c ≠ '\x27')
include hrest

theorem readMultiPlain_close :
    readMultiPlain ('\x27' :: '\x27' :: '\x27' :: rest) = some ([], rest) ∧
      readMultiPlain ('\x27' :: '\x27' :: '\x27' :: '\x27' :: rest) = some (['\x27'], rest) := by
  cases rest with
  | nil => exact ⟨rfl, rfl⟩
  | cons c cs =>
    have hc : c ≠ '\x27' := hrest c rfl
    constructor
    · rw [readMultiPlain.eq_def]
      split <;> grind
    · rw [readMultiPlain.eq_def]
      split <;> grind

theorem readMultiPlain_append {cs : List Char}
    (hcs : ∀ c ∈ cs, (isLineChar c = true ∨ c = '\n') ∧ c ≠ '\r') (run : Nat)
    (hruns : longestRun '\x27' run cs ≤ 2) :
    readMultiPlain (cs ++ '\x27' :: '\x27' :: '\x27' :: rest) = some (cs, rest) := by
  obtain ⟨hclose, hcloseOne⟩ := readMultiPlain_close hrest
  induction cs generalizing run with
  | nil => exact hclose
  | cons c cs ih =>
    have htail : ∀ d ∈ cs, (isLineChar d = true ∨ d = '\n') ∧ d ≠ '\r' := fun d hd =>
      hcs d (List.mem_cons_of_mem c hd)
    by_cases hquote : c = '\x27'
    · subst hquote
      rw [longestRun_cons_self] at hruns
      rw [List.cons_append]
      by_cases hquotes : ∃ tail,
          cs ++ '\x27' :: '\x27' :: '\x27' :: rest = '\x27' :: '\x27' :: tail
      · obtain ⟨tail, hquotes⟩ := hquotes
        rcases eq_of_quotes hruns hquotes with rfl | rfl
        · exact hcloseOne
        · rfl
      · rw [readMultiPlain_quote fun tail h => hquotes ⟨tail, h⟩, ih htail (run + 1) hruns]
        rfl
    · have hzero : longestRun '\x27' 0 cs ≤ 2 := by
        rw [longestRun, if_neg hquote] at hruns
        omega
      obtain ⟨hline, hreturn⟩ := hcs c List.mem_cons_self
      have hinside := ih htail 0 hzero
      rw [List.cons_append, readMultiPlain.eq_def]
      split <;> simp_all [cons]

end MultiPlain

theorem not_mem_of_longestRun {q : Char} {run : Nat} {cs : List Char} (h : longestRun q run cs = 0) :
    q ∉ cs := by
  induction cs generalizing run with
  | nil => simp
  | cons c cs ih =>
    rw [longestRun] at h
    split at h
    · have hrun := le_longestRun q (run + 1) cs
      omega
    next hne =>
      have hzero : longestRun q 0 cs = 0 := by omega
      simp [Ne.symm hne, ih hzero]

theorem isLineChar_or_of_not_isControl {c : Char} (h : isControl c = false) :
    (isLineChar c = true ∨ c = '\n') ∧ c ≠ '\r' := by
  have hcodes : '\r'.toNat = 13 := by decide
  constructor
  · simp only [isControl, isLineChar] at h ⊢
    grind
  · rintro rfl
    exact absurd h (by decide)

/-- Quotes without escapes are chosen only for texts that they show. -/
theorem shown_of_quoting_literal {cs : List Char} (h : quoting cs = .literal) :
    ∀ c ∈ cs, isLineChar c = true ∧ c ≠ '\x27' := by
  simp only [quoting] at h
  split_ifs at h with hbasic hliteral
  simp only [Bool.and_eq_true, Bool.not_eq_true', beq_iff_eq] at hliteral
  obtain ⟨⟨hcontrol, hsingle⟩, hnewline⟩ := hliteral
  intro c hc
  have hshown := isLineChar_or_of_not_isControl
    (Bool.eq_false_iff.2 (List.any_eq_false.1 hcontrol c hc))
  have hquote : c ≠ '\x27' := fun heq => not_mem_of_longestRun hsingle (heq ▸ hc)
  have hline : c ≠ '\n' := by
    rintro rfl
    rw [List.contains_iff_mem.2 hc] at hnewline
    cases hnewline
  exact ⟨hshown.1.resolve_right hline, hquote⟩

theorem shown_of_quoting_multiLiteral {cs : List Char} (h : quoting cs = .multiLiteral) :
    (∀ c ∈ cs, (isLineChar c = true ∨ c = '\n') ∧ c ≠ '\r') ∧ longestRun '\x27' 0 cs ≤ 2 := by
  simp only [quoting] at h
  split_ifs at h with hbasic hliteral hmultiBasic hmultiLiteral
  simp only [Bool.and_eq_true, Bool.not_eq_true', decide_eq_true_eq] at hmultiLiteral
  obtain ⟨hcontrol, hsingle⟩ := hmultiLiteral
  exact ⟨fun c hc => isLineChar_or_of_not_isControl
    (Bool.eq_false_iff.2 (List.any_eq_false.1 hcontrol c hc)), hsingle⟩

/-- A text with a line end begins on a line of its own, and no other text begins with a line end. -/
theorem skipFirstLineEnd_opening {cs inside : List Char} (h : '\n' ∉ cs → lineEnd? inside = none) :
    skipFirstLineEnd ((if cs.contains '\n' then ['\n'] else []) ++ inside) = inside := by
  by_cases hline : '\n' ∈ cs
  · have hcontains : cs.contains '\n' = true := List.contains_iff_mem.2 hline
    rw [if_pos hcontains]
    rfl
  · have hcontains : ¬cs.contains '\n' = true := fun h => hline (List.contains_iff_mem.1 h)
    rw [if_neg hcontains, List.nil_append, skipFirstLineEnd, h hline, Option.getD_none]

theorem readText_basic {cs : List Char} (h : ∀ tail, cs ≠ '"' :: '"' :: tail) :
    readText ('"' :: cs) = readBasic cs := by
  rw [readText.eq_def]
  split <;> grind

theorem readText_literal {cs : List Char} (h : ∀ tail, cs ≠ '\x27' :: '\x27' :: tail) :
    readText ('\x27' :: cs) = readPlain cs := by
  rw [readText.eq_def]
  split <;> grind

theorem lineEnd?_basicChars {cs : List Char} (hcs : '\n' ∉ cs) (rest : List Char) :
    lineEnd? (basicChars true 0 cs ++ '"' :: rest) = none := by
  cases cs with
  | nil => rfl
  | cons c cs =>
    have hline : c ≠ '\n' := fun h => hcs (by simp [h])
    rw [basicChars]
    by_cases hquote : c = '"'
    · simp [hquote, lineEnd?]
    · rcases escape_cases c with ⟨hescape, -, hreturn, -⟩ | ⟨x, hescape, -⟩ | ⟨hescape, -⟩
      all_goals simp_all [lineEnd?]

theorem lineEnd?_append {cs : List Char} (hcs : ∀ c ∈ cs, c ≠ '\n' ∧ c ≠ '\r') (rest : List Char) :
    lineEnd? (cs ++ '\x27' :: rest) = none := by
  cases cs with
  | nil => rfl
  | cons c cs =>
    obtain ⟨hline, hreturn⟩ := hcs c List.mem_cons_self
    rw [List.cons_append, lineEnd?.eq_def]
    split <;> simp_all

/-- A quoted text is read back, unless a quote follows it. -/
theorem readText_textChars (s : String) {rest : List Char} (hrest : EndsText rest) :
    readText (textChars s ++ rest) = some (s.toList, rest) := by
  have hdouble : ∀ c ∈ rest.head?, c ≠ '"' := fun c hc => (hrest c hc).1
  have hsingle : ∀ c ∈ rest.head?, c ≠ '\x27' := fun c hc => (hrest c hc).2
  cases hquoting : quoting s.toList with
  | basic =>
    have hchars : textChars s ++ rest = '"' :: (basicChars false 0 s.toList ++ '"' :: rest) := by
      simp [textChars, hquoting]
    have hfirst (tail : List Char) :
        basicChars false 0 s.toList ++ '"' :: rest ≠ '"' :: '"' :: tail := by
      cases s.toList with
      | nil => exact fun h => hdouble '"' (by simp [(List.cons.inj h).2]) rfl
      | cons c cs => exact basicChars_cons_ne (.inr (by simp)) cs _ _
    rw [hchars, readText_basic hfirst, readBasic_basicChars]
  | literal =>
    have hshown := shown_of_quoting_literal hquoting
    have hchars : textChars s ++ rest = '\x27' :: (s.toList ++ '\x27' :: rest) := by
      simp [textChars, hquoting]
    have hfirst (tail : List Char) : s.toList ++ '\x27' :: rest ≠ '\x27' :: '\x27' :: tail := by
      cases htext : s.toList with
      | nil => exact fun h => hsingle '\x27' (by simp [(List.cons.inj h).2]) rfl
      | cons c cs => exact fun h => (hshown c (by simp [htext])).2 (List.cons.inj h).1
    rw [hchars, readText_literal hfirst, readPlain_append hshown]
  | multiBasic =>
    have hchars : textChars s ++ rest = '"' :: '"' :: '"' ::
        ((if s.toList.contains '\n' then ['\n'] else []) ++
          (basicChars true 0 s.toList ++ '"' :: '"' :: '"' :: rest)) := by
      simp [textChars, hquoting]
    rw [hchars, readText, skipFirstLineEnd_opening fun h => lineEnd?_basicChars h _]
    exact readMultiBasic_basicChars hdouble s.toList 0
  | multiLiteral =>
    obtain ⟨hshown, hruns⟩ := shown_of_quoting_multiLiteral hquoting
    have hchars : textChars s ++ rest = '\x27' :: '\x27' :: '\x27' ::
        ((if s.toList.contains '\n' then ['\n'] else []) ++
          (s.toList ++ '\x27' :: '\x27' :: '\x27' :: rest)) := by
      simp [textChars, hquoting]
    have hopening (h : '\n' ∉ s.toList) :
        lineEnd? (s.toList ++ '\x27' :: '\x27' :: '\x27' :: rest) = none :=
      lineEnd?_append (fun c hc => ⟨fun heq => h (heq ▸ hc), (hshown c hc).2⟩) _
    rw [hchars, readText, skipFirstLineEnd_opening hopening]
    exact readMultiPlain_append hsingle hshown 0 hruns

end CallMetrics.Toml
