import CallMetrics.Json.Reader
import CallMetrics.Json.Writer
import CallMetrics.Proofs.Json.Literal
import CallMetrics.Text.Blank

/-! Written JSON is read back. Characters read as a value if they do so whatever stands behind them
(`Reads`); each construct of the writers puts characters that read as a value together from such
ones, so that both writers give texts that read as the value (`reads_pretty`, `reads_compact`). -/

namespace CallMetrics
namespace Json
open Text

/-- What may stand behind a number without carrying it on. -/
def EndsNumber (rest : List Char) : Prop :=
  ∀ c ∈ rest.head?, c.isDigit = false ∧ c ≠ '.' ∧ c ≠ 'e' ∧ c ≠ 'E'

/-- The characters say a value, with fuel for as many values as there are characters. -/
def Reads (v : Value) (cs : List Char) : Prop :=
  ∀ fuel rest, cs.length ≤ fuel → EndsNumber rest → readValue fuel (cs ++ rest) = some (v, rest)

theorem skipSpace_of_not {c : Char} (h : isSpace c = false) (cs : List Char) :
    skipSpace (c :: cs) = c :: cs := dropWhile_eq_self (by simpa using h)

theorem skipSpace_append {blanks : List Char} (h : ∀ c ∈ blanks, isSpace c = true)
    (cs : List Char) : skipSpace (blanks ++ cs) = skipSpace cs := List.dropWhile_append_of_pos h

section Number
variable {rest : List Char}

theorem takeDigits_append {digits : List Char} (h : ∀ c ∈ digits, c.isDigit = true)
    (hrest : EndsNumber rest) : takeDigits (digits ++ rest) = (digits, rest) := by
  have hend : ∀ c ∈ rest.head?, c.isDigit = false := fun c hc => (hrest c hc).1
  rw [takeDigits, takeWhile_run h hend, dropWhile_run h hend]

theorem readFraction_of_ends (hrest : EndsNumber rest) : readFraction rest = some (none, rest) := by
  unfold readFraction
  split
  · exact absurd rfl (hrest '.' rfl).2.1
  · rfl

theorem readExponent_of_ends (hrest : EndsNumber rest) : readExponent rest = some (none, rest) := by
  unfold readExponent
  split
  next c cs =>
    obtain ⟨-, -, hlower, hupper⟩ := hrest c rfl
    rw [if_neg (by simp [hlower, hupper])]
  next => rfl

theorem readMagnitude_natChars (negative : Bool) (n : Nat) (hrest : EndsNumber rest) :
    readMagnitude negative (natChars n ++ rest) =
      some (integerValue negative (natChars n), rest) := by
  have hdigits : takeDigits (natChars n ++ rest) = (natChars n, rest) :=
    takeDigits_append (fun c hc => isDigit_of_mem_natChars hc) hrest
  have hleads : ¬(natChars n = [] ∨ ((natChars n).head? = some '0' ∧ natChars n ≠ ['0'])) := by
    rintro (hnil | ⟨hhead, hne⟩)
    · exact natChars_ne_nil n hnil
    · rw [eq_zero_of_head?_natChars hhead] at hne
      exact hne rfl
  simp only [readMagnitude, hdigits, if_neg hleads, readFraction_of_ends hrest,
    readExponent_of_ends hrest, and_self, if_true]

theorem readNumber_intChars {n : Int} (hleast : Int64.minValue.toInt ≤ n) (hmost : n < UInt64.size)
    (hrest : EndsNumber rest) : readNumber (intChars n ++ rest) = some (.int n, rest) := by
  have hmin : Int64.minValue.toInt = -(Int64.minValue.toInt.natAbs : Int) := by decide
  cases n with
  | ofNat n =>
    -- a digit is not the sign that the reader looks for first
    have hunsigned : readNumber (natChars n ++ rest) = readMagnitude false (natChars n ++ rest) := by
      unfold readNumber
      split
      next cs heq =>
        obtain ⟨c, cs', hchars, hdigit⟩ := exists_cons_natChars n
        rw [hchars] at heq
        rw [(List.cons.inj heq).1] at hdigit
        exact absurd hdigit (by decide)
      next => rfl
    have hsmall : n < UInt64.size := Int.ofNat_lt.1 hmost
    rw [intChars, hunsigned, readMagnitude_natChars false n hrest]
    simp [integerValue, ofDigits_natChars, hsmall]
  | negSucc n =>
    have hsmall : n + 1 ≤ Int64.minValue.toInt.natAbs := by omega
    rw [intChars, List.cons_append, readNumber, readMagnitude_natChars true (n + 1) hrest]
    simp only [integerValue, ofDigits_natChars, hsmall, and_true, Nat.zero_lt_succ, if_true]
    rfl

end Number

/-- A number is told from other values by its first character. -/
theorem readValue_number {c : Char} (hc : c.isDigit = true ∨ c = '-') (fuel : Nat) (cs : List Char) :
    readValue (fuel + 1) (c :: cs) = readNumber (c :: cs) := by
  have hothers : ['n', 't', 'f', '"', '[', '\x7b', ' ', '\n', '\t', '\r'].any
      (fun d => d.isDigit || d == '-') = false := by decide
  have hne : ∀ d ∈ ['n', 't', 'f', '"', '[', '\x7b', ' ', '\n', '\t', '\r'], c ≠ d := by
    rintro d hd rfl
    exact List.any_eq_false.1 hothers c hd (by simpa using hc)
  have hspace : isSpace c = false := by simp [isSpace, hne]
  rw [readValue, skipSpace_of_not hspace]
  split <;> first | rfl | (rename_i heq; exact absurd (List.cons.inj heq).1 (hne _ (by simp)))

theorem exists_cons_intChars (n : Int) :
    ∃ c cs, intChars n = c :: cs ∧ (c.isDigit = true ∨ c = '-') := by
  cases n with
  | ofNat n =>
    obtain ⟨c, cs, hchars, hdigit⟩ := exists_cons_natChars n
    exact ⟨c, cs, hchars, .inl hdigit⟩
  | negSucc n => exact ⟨'-', natChars (n + 1), rfl, .inr rfl⟩

section Constructs

theorem Reads.of_succ {v : Value} {cs : List Char} (hne : cs ≠ [])
    (h : ∀ fuel rest, cs.length ≤ fuel + 1 → EndsNumber rest →
      readValue (fuel + 1) (cs ++ rest) = some (v, rest)) : Reads v cs := by
  intro fuel rest hfuel hrest
  cases fuel with
  | zero => exact absurd (List.length_eq_zero_iff.1 (Nat.le_zero.1 hfuel)) hne
  | succ fuel => exact h fuel rest hfuel hrest

theorem reads_null : Reads .null ['n', 'u', 'l', 'l'] :=
  .of_succ (by simp) fun _ _ _ _ => rfl

theorem reads_bool (b : Bool) : Reads (.bool b) (compactChars (.bool b)) := by
  cases b with
  | false => exact .of_succ (by simp [compactChars]) fun _ _ _ _ => rfl
  | true => exact .of_succ (by simp [compactChars]) fun _ _ _ _ => rfl

theorem reads_int {n : Int} (hleast : Int64.minValue.toInt ≤ n) (hmost : n < UInt64.size) :
    Reads (.int n) (intChars n) := by
  obtain ⟨c, cs, hchars, hc⟩ := exists_cons_intChars n
  refine .of_succ (by simp [hchars]) fun fuel rest _ hrest => ?_
  rw [hchars, List.cons_append, readValue_number hc, ← List.cons_append, ← hchars]
  exact readNumber_intChars hleast hmost hrest

theorem reads_text (s : String) : Reads (.text s) (literalChars s) := by
  refine .of_succ (by simp [literalChars]) fun fuel rest _ _ => ?_
  have hliteral := readLiteral_escape s rest
  rw [literalChars, List.cons_append, List.append_assoc, List.singleton_append, readValue,
    skipSpace_of_not (by decide)]
  simp only [hliteral, Option.map_some, ofLiteral, String.ofList_toList]

/-- Blanks may stand before a value. -/
theorem Reads.blanks_append {v : Value} {cs blanks : List Char} (h : Reads v cs)
    (hblanks : ∀ c ∈ blanks, isSpace c = true) : Reads v (blanks ++ cs) := by
  intro fuel rest hfuel hrest
  have hvalue := h fuel rest (by simp at hfuel; omega) hrest
  cases fuel with
  | zero => exact hvalue
  | succ fuel =>
    rw [← hvalue, readValue, readValue, List.append_assoc, skipSpace_append hblanks]

end Constructs

theorem endsNumber_cons {c : Char} (h : c.isDigit = false ∧ c ≠ '.' ∧ c ≠ 'e' ∧ c ≠ 'E')
    (rest : List Char) : EndsNumber (c :: rest) := by
  intro d hd
  rw [← Option.some.inj hd]
  exact h

theorem endsNumber_blanks {blanks rest : List Char} (hblanks : ∀ c ∈ blanks, isSpace c = true)
    (hrest : EndsNumber rest) : EndsNumber (blanks ++ rest) := by
  cases blanks with
  | nil => exact hrest
  | cons c cs =>
    have hspace : ∀ c, isSpace c = true → c.isDigit = false ∧ c ≠ '.' ∧ c ≠ 'e' ∧ c ≠ 'E' := by
      intro c hc
      simp only [isSpace, Bool.or_eq_true, beq_iff_eq] at hc
      rcases hc with ((rfl | rfl) | rfl) | rfl <;> decide
    exact endsNumber_cons (hspace c (hblanks c (by simp))) _

theorem skipSpace_skipSpace (cs : List Char) : skipSpace (skipSpace cs) = skipSpace cs :=
  dropWhile_eq_self (head?_dropWhile_not isSpace cs)

theorem readValue_skipSpace (fuel : Nat) (cs : List Char) :
    readValue fuel (skipSpace cs) = readValue fuel cs := by
  cases fuel with
  | zero => rfl
  | succ fuel => rw [readValue, readValue, skipSpace_skipSpace]

theorem readItems_skipSpace (fuel : Nat) (cs : List Char) :
    readItems fuel (skipSpace cs) = readItems fuel cs := by
  cases fuel with
  | zero => rfl
  | succ fuel => rw [readItems, readItems, readValue_skipSpace]

theorem readMembers_skipSpace (fuel : Nat) (cs : List Char) :
    readMembers fuel (skipSpace cs) = readMembers fuel cs := by
  cases fuel with
  | zero => rfl
  | succ fuel => rw [readMembers, readMembers, skipSpace_skipSpace]

theorem readItems_bracket (fuel : Nat) (cs : List Char) : readItems fuel (']' :: cs) = none := by
  have hvalue : ∀ fuel, readValue fuel (']' :: cs) = none := by
    intro fuel
    cases fuel with
    | zero => rfl
    | succ fuel => rfl
  cases fuel with
  | zero => rfl
  | succ fuel => rw [readItems, hvalue]

theorem joinWith_map_cons {α : Type} {l : List α} (hl : l ≠ []) (separator : List Char)
    (text : α → List Char) (a : α) :
    joinWith separator ((a :: l).map text) =
      text a ++ (separator ++ joinWith separator (l.map text)) := by
  cases l with
  | nil => exact absurd rfl hl
  | cons b l => exact List.append_assoc _ _ _

theorem readMembers_brace (fuel : Nat) (cs : List Char) :
    readMembers fuel ('\x7d' :: cs) = none := by
  cases fuel with
  | zero => rfl
  | succ fuel => rfl

/-- A name with a value, which blanks may stand before. -/
def memberChars (name : String) (value : List Char) : List Char :=
  literalChars name ++ ':' :: value

/-- The characters say a member, after blanks if there are any. -/
def ReadsMember (e : String × Value) (cs : List Char) : Prop :=
  ∃ lead value, (∀ c ∈ lead, isSpace c = true) ∧ Reads e.2 value ∧
    cs = lead ++ memberChars e.1 value

theorem skipSpace_memberChars (name : String) (value rest : List Char) :
    skipSpace (memberChars name value ++ rest) =
      '"' :: (name.toList.flatMap escape ++ '"' :: (':' :: (value ++ rest))) := by
  have hchars : memberChars name value ++ rest =
      '"' :: (name.toList.flatMap escape ++ '"' :: (':' :: (value ++ rest))) := by
    simp [memberChars, literalChars]
  rw [hchars, skipSpace_of_not (by decide)]

theorem ofMembers_map (es : List (String × Value)) :
    ofMembers (es.map fun e => (some e.1.toList, e.2)) = .record es := by
  have hmembers : (es.map fun e => ((some e.1.toList : LiteralText), e.2)).mapM
      (fun e => e.1.map fun cs => (String.ofList cs, e.2)) = some es := by
    induction es with
    | nil => rfl
    | cons e es ih => simp [ih]
  rw [ofMembers, hmembers]

section Block
variable {lead gap tail : List Char} (hgap : ∀ c ∈ gap, isSpace c = true)
  (htail : ∀ c ∈ tail, isSpace c = true)
include hgap htail

theorem readItems_joined {vs : List Value} {text : Value → List Char} (hvs : vs ≠ [])
    (h : ∀ v ∈ vs, Reads v (text v)) (rest : List Char) (fuel : Nat)
    (hfuel : (joinWith (',' :: gap) (vs.map text)).length < fuel) :
    readItems fuel (joinWith (',' :: gap) (vs.map text) ++ (tail ++ ']' :: rest)) =
      some (vs, rest) := by
  induction vs generalizing fuel with
  | nil => exact absurd rfl hvs
  | cons v vs ih =>
    obtain ⟨fuel, rfl⟩ : ∃ n, fuel = n + 1 := ⟨fuel - 1, by omega⟩
    -- the last item ends with the bracket, any other one with a comma
    by_cases hlast : vs = []
    · subst hlast
      have hvalue := h v (by simp) fuel (tail ++ ']' :: rest) (by simp [joinWith] at hfuel; omega)
        (endsNumber_blanks htail (endsNumber_cons (by decide) _))
      simp only [List.map_cons, List.map_nil, joinWith, readItems, hvalue, skipSpace_append htail,
        skipSpace_of_not (c := ']') (by decide)]
    · rw [joinWith_map_cons hlast] at hfuel ⊢
      simp only [List.length_append, List.length_cons] at hfuel
      have hrest := ih hlast (fun w hw => h w (by simp [hw])) fuel (by omega)
      have hvalue := h v (by simp) fuel
        (',' :: (gap ++ (joinWith (',' :: gap) (vs.map text) ++ (tail ++ ']' :: rest))))
        (by omega) (endsNumber_cons (by decide) _)
      rw [← readItems_skipSpace, ← skipSpace_append hgap, readItems_skipSpace] at hrest
      simp only [List.append_assoc, List.cons_append, readItems, hvalue,
        skipSpace_of_not (c := ',') (by decide), hrest, Option.map_some]

/-- A list with its items between brackets and commas, and blanks around each item. -/
theorem Reads.list {vs : List Value} {text : Value → List Char} (hvs : vs ≠ [])
    (h : ∀ v ∈ vs, Reads v (text v)) (hlead : ∀ c ∈ lead, isSpace c = true) :
    Reads (.list vs)
      ('[' :: (lead ++ (joinWith (',' :: gap) (vs.map text) ++ (tail ++ [']'])))) := by
  refine .of_succ (by simp) fun fuel rest hfuel _ => ?_
  have hitems := readItems_joined hgap htail hvs h rest fuel (by simp at hfuel; omega)
  rw [← readItems_skipSpace, ← skipSpace_append hlead] at hitems
  simp only [List.cons_append, List.append_assoc, List.nil_append]
  rw [readValue, skipSpace_of_not (by decide)]
  simp only
  split
  next cs hclosed =>
    -- no item begins with a bracket that closes the list
    rw [hclosed, readItems_bracket] at hitems
    cases hitems
  next => rw [hitems, Option.map_some]

theorem readMembers_joined {es : List (String × Value)} {text : String × Value → List Char}
    (hes : es ≠ []) (h : ∀ e ∈ es, ReadsMember e (text e)) (rest : List Char) (fuel : Nat)
    (hfuel : (joinWith (',' :: gap) (es.map text)).length < fuel) :
    readMembers fuel (joinWith (',' :: gap) (es.map text) ++ (tail ++ '\x7d' :: rest)) =
      some (es.map fun e => (some e.1.toList, e.2), rest) := by
  induction es generalizing fuel with
  | nil => exact absurd rfl hes
  | cons e es ih =>
    obtain ⟨fuel, rfl⟩ : ∃ n, fuel = n + 1 := ⟨fuel - 1, by omega⟩
    obtain ⟨lead, value, hlead, hreads, htext⟩ := h e (by simp)
    by_cases hlast : es = []
    · subst hlast
      simp only [List.map_cons, List.map_nil, joinWith, htext, memberChars, List.length_append,
        List.length_cons] at hfuel
      have hvalue := hreads fuel (tail ++ '\x7d' :: rest) (by omega)
        (endsNumber_blanks htail (endsNumber_cons (by decide) _))
      simp only [List.map_cons, List.map_nil, joinWith, htext, List.append_assoc, readMembers,
        skipSpace_append hlead, skipSpace_memberChars, readLiteral_escape, hvalue,
        skipSpace_append htail, skipSpace_of_not (c := '\x7d') (by decide),
        skipSpace_of_not (c := ':') (by decide)]
    · rw [joinWith_map_cons hlast] at hfuel ⊢
      simp only [List.length_append, List.length_cons, htext, memberChars] at hfuel
      have hrest := ih hlast (fun w hw => h w (by simp [hw])) fuel (by omega)
      have hvalue := hreads fuel
        (',' :: (gap ++ (joinWith (',' :: gap) (es.map text) ++ (tail ++ '\x7d' :: rest))))
        (by omega) (endsNumber_cons (by decide) _)
      rw [← readMembers_skipSpace, ← skipSpace_append hgap, readMembers_skipSpace] at hrest
      simp only [htext, List.append_assoc, List.cons_append, readMembers, skipSpace_append hlead,
        skipSpace_memberChars, readLiteral_escape, hvalue, skipSpace_of_not (c := ',') (by decide),
        skipSpace_of_not (c := ':') (by decide), hrest, Option.map_some, List.map_cons]

/-- A record with its members between braces and commas, and blanks around each member. -/
theorem Reads.record {es : List (String × Value)} {text : String × Value → List Char} (hes : es ≠ [])
    (h : ∀ e ∈ es, ReadsMember e (text e)) (hlead : ∀ c ∈ lead, isSpace c = true) :
    Reads (.record es)
      ('\x7b' :: (lead ++ (joinWith (',' :: gap) (es.map text) ++ (tail ++ ['\x7d'])))) := by
  refine .of_succ (by simp) fun fuel rest hfuel _ => ?_
  have hmembers := readMembers_joined hgap htail hes h rest fuel
    (by simp at hfuel; omega)
  rw [← readMembers_skipSpace, ← skipSpace_append hlead] at hmembers
  simp only [List.cons_append, List.append_assoc, List.nil_append]
  rw [readValue, skipSpace_of_not (by decide)]
  simp only
  split
  next cs hclosed =>
    rw [hclosed, readMembers_brace] at hmembers
    cases hmembers
  next => rw [hmembers, Option.map_some, ofMembers_map]

end Block

theorem reads_list_nil : Reads (.list []) ['[', ']'] := .of_succ (by simp) fun _ _ _ _ => rfl

theorem reads_record_nil : Reads (.record []) ['\x7b', '\x7d'] :=
  .of_succ (by simp) fun _ _ _ _ => rfl

end Json

/-- Values that text says in full: all numbers in them are integers of 64 bits. -/
inductive Value.Expressible : Value → Prop
  | null : Expressible .null
  | bool (b : Bool) : Expressible (.bool b)
  | int {n : Int} (hleast : Int64.minValue.toInt ≤ n) (hmost : n < UInt64.size) :
    Expressible (.int n)
  | text (s : String) : Expressible (.text s)
  | list {items : List Value} (h : ∀ v ∈ items, Expressible v) : Expressible (.list items)
  | record {members : List (String × Value)} (h : ∀ e ∈ members, Expressible e.2) :
    Expressible (.record members)

namespace Value.Expressible

@[simp] theorem int_iff {n : Int} :
    (Value.int n).Expressible ↔ Int64.minValue.toInt ≤ n ∧ n < UInt64.size :=
  ⟨fun h => by cases h with | int hleast hmost => exact ⟨hleast, hmost⟩, fun h => .int h.1 h.2⟩

@[simp] theorem list_iff {items : List Value} :
    (Value.list items).Expressible ↔ ∀ v ∈ items, v.Expressible :=
  ⟨fun h => by cases h with | list h => exact h, .list⟩

@[simp] theorem record_iff {members : List (String × Value)} :
    (Value.record members).Expressible ↔ ∀ e ∈ members, e.2.Expressible :=
  ⟨fun h => by cases h with | record h => exact h, .record⟩

attribute [simp] Expressible.null Expressible.bool Expressible.text

theorem ofNat {n : Nat} (h : n < UInt64.size) : (Value.ofNat n).Expressible := by
  have hleast : Int64.minValue.toInt ≤ 0 := by decide
  exact .int (by omega) (by omega)

theorem ofTexts (texts : Dict String) : (Value.ofTexts texts).Expressible :=
  .record (List.forall_mem_map.2 fun e _ => .text e.2)

theorem ofInt64 (n : Int64) : (Value.int n.toInt).Expressible := by
  have hmost := n.toInt_lt
  have hwide : (2 : Int) ^ 63 < UInt64.size := by decide
  exact .int n.minValue_le_toInt (by omega)

end Value.Expressible

namespace Json

theorem prettyItems_eq_map (depth : Nat) (items : List Value) :
    prettyItems depth items = items.map (prettyChars depth) := by
  induction items with
  | nil => rfl
  | cons v rest ih => rw [prettyItems, ih, List.map_cons]

theorem prettyMembers_eq_map (depth : Nat) (members : List (String × Value)) :
    prettyMembers depth members =
      members.map fun e => memberChars e.1 (' ' :: prettyChars depth e.2) := by
  induction members with
  | nil => rfl
  | cons e rest ih => rw [prettyMembers, ih, List.map_cons, memberChars]

theorem compactItems_eq_map (items : List Value) :
    compactItems items = items.map compactChars := by
  induction items with
  | nil => rfl
  | cons v rest ih => rw [compactItems, ih, List.map_cons]

theorem compactMembers_eq_map (members : List (String × Value)) :
    compactMembers members = members.map fun e => memberChars e.1 (compactChars e.2) := by
  induction members with
  | nil => rfl
  | cons e rest ih => rw [compactMembers, ih, List.map_cons, memberChars]

theorem isSpace_of_mem_indent {depth : Nat} : ∀ c ∈ indent depth, isSpace c = true := by
  intro c hc
  rw [List.eq_of_mem_replicate hc]
  rfl

theorem isSpace_of_mem_newLine {depth : Nat} : ∀ c ∈ '\n' :: indent depth, isSpace c = true := by
  intro c hc
  rcases List.mem_cons.1 hc with rfl | hc
  · rfl
  · exact isSpace_of_mem_indent c hc

theorem block_map {α : Type} {l : List α} (hl : l ≠ []) (depth : Nat) (opening closing : Char)
    (text : α → List Char) :
    block depth opening closing (l.map text) = opening :: (['\n'] ++
      (joinWith [',', '\n'] (l.map fun a => indent (depth + 1) ++ text a) ++
        ('\n' :: indent depth ++ [closing]))) := by
  cases l with
  | nil => exact absurd rfl hl
  | cons a l => simp [block, Function.comp_def]

theorem reads_pretty {v : Value} (h : v.Expressible) (depth : Nat) :
    Reads v (prettyChars depth v) := by
  have hend : ∀ c ∈ ['\n'], isSpace c = true := List.all_eq_true.1 rfl
  induction h generalizing depth with
  | null => exact reads_null
  | bool b => exact reads_bool b
  | int hleast hmost => exact reads_int hleast hmost
  | text s => exact reads_text s
  | @list items h ih =>
    rw [prettyChars, prettyItems_eq_map]
    by_cases hitems : items = []
    · subst hitems
      exact reads_list_nil
    · rw [block_map hitems]
      refine .list hend isSpace_of_mem_newLine hitems (fun v hv => ?_) hend
      exact (ih v hv (depth + 1)).blanks_append isSpace_of_mem_indent
  | @record members h ih =>
    rw [prettyChars, prettyMembers_eq_map]
    by_cases hmembers : members = []
    · subst hmembers
      exact reads_record_nil
    · rw [block_map hmembers]
      refine .record hend isSpace_of_mem_newLine hmembers (fun e he => ?_) hend
      have hblank : ∀ c ∈ [' '], isSpace c = true := List.all_eq_true.1 rfl
      exact ⟨_, _, isSpace_of_mem_indent, (ih e he (depth + 1)).blanks_append hblank, rfl⟩

theorem reads_compact {v : Value} (h : v.Expressible) : Reads v (compactChars v) := by
  have hnone : ∀ c ∈ ([] : List Char), isSpace c = true := by simp
  induction h with
  | null => exact reads_null
  | bool b => exact reads_bool b
  | int hleast hmost => exact reads_int hleast hmost
  | text s => exact reads_text s
  | @list items h ih =>
    rw [compactChars, compactItems_eq_map]
    by_cases hitems : items = []
    · subst hitems
      exact reads_list_nil
    · exact .list hnone hnone hitems ih hnone
  | @record members h ih =>
    rw [compactChars, compactMembers_eq_map]
    by_cases hmembers : members = []
    · subst hmembers
      exact reads_record_nil
    · exact .record hnone hnone hmembers (fun e he => ⟨[], _, hnone, ih e he, rfl⟩) hnone

/-- A text of characters that read as a value, with blanks behind them. -/
theorem Reads.read {v : Value} {cs blanks : List Char} (h : Reads v cs)
    (hblanks : ∀ c ∈ blanks, isSpace c = true) : read (String.ofList (cs ++ blanks)) = some v := by
  have hends : EndsNumber blanks := by
    have hnil : EndsNumber [] := fun c hc => by cases hc
    simpa using endsNumber_blanks hblanks hnil
  have hvalue := h ((cs ++ blanks).length + 1) blanks (by simp; omega) hends
  have hskip : skipSpace blanks = [] := by
    rw [← List.append_nil blanks, skipSpace_append hblanks]
    rfl
  simp only [Json.read, String.toList_ofList, hvalue, hskip, if_true]

theorem read_prettyLines {v : Value} (h : v.Expressible) : Json.read (prettyLines v) = some v := by
  have htext : prettyLines v = String.ofList (prettyChars 0 v ++ ['\n']) := by
    rw [prettyLines, pretty, String.ofList_append]
  rw [htext]
  exact (reads_pretty h 0).read (List.all_eq_true.1 rfl)

theorem read_compact {v : Value} (h : v.Expressible) : Json.read (compact v) = some v := by
  have hnone : ∀ c ∈ ([] : List Char), isSpace c = true := by simp
  have hread := (reads_compact h).read hnone
  rwa [List.append_nil] at hread

theorem read_compactLine {v : Value} (h : v.Expressible) : Json.read (compactLine v) = some v := by
  have htext : compactLine v = String.ofList (compactChars v ++ ['\n']) := by
    rw [compactLine, compact, String.ofList_append]
  rw [htext]
  exact (reads_compact h).read (List.all_eq_true.1 rfl)

end Json
end CallMetrics
