import CallMetrics.Config.Environment
import CallMetrics.Proofs.Config.Fields
import CallMetrics.Proofs.Config.Rules

/-! What the variables of an environment say. The text of a variable denotes a setting, or it
denotes none and has one report. The settings of an environment are what its variables denote one by
one, or the report of the first one that denotes nothing (`variables_read_iff`). -/

namespace CallMetrics
open Text

/-! Texts and what they denote. -/

/-- The names between the commas of a text, without those that are blank. -/
def Listed (raw : String) (names : List String) : Prop :=
  ∃ pieces, raw.toList = [','].intercalate pieces ∧ (∀ piece ∈ pieces, ',' ∉ piece) ∧
    names = (pieces.map fun piece => trim (String.ofList piece)).filter (· ≠ "")

theorem splitCommas_eq_splitOn (cs : List Char) : splitCommas cs = cs.splitOn ',' := by
  induction cs with
  | nil => simp [splitCommas]
  | cons c rest ih =>
    rw [splitCommas, List.splitOn_cons_eq_if_modifyHead, ih]
    by_cases hc : c = ','
    · simp [hc]
    · rw [if_neg hc, if_neg (by simpa using hc)]
      cases hpieces : rest.splitOn ',' with
      | nil => exact absurd hpieces (List.splitOn_ne_nil _ _)
      | cons first others => rfl

theorem comma_notMem_of_mem_splitCommas {cs piece : List Char} (h : piece ∈ splitCommas cs) :
    ',' ∉ piece := by
  induction cs generalizing piece with
  | nil =>
    obtain rfl := List.mem_singleton.1 h
    exact List.not_mem_nil
  | cons c rest ih =>
    rw [splitCommas] at h
    split at h
    next =>
      rcases List.mem_cons.1 h with rfl | h
      · exact List.not_mem_nil
      · exact ih h
    next hc =>
      split at h
      next =>
        obtain rfl := List.mem_singleton.1 h
        simpa [eq_comm] using hc
      next first others hpieces =>
        rw [hpieces] at ih
        rcases List.mem_cons.1 h with rfl | h
        · simpa [eq_comm (a := ','), hc] using ih List.mem_cons_self
        · exact ih (List.mem_cons_of_mem _ h)

theorem listed_iff {raw : String} {names : List String} :
    Listed raw names ↔ names = listItems raw := by
  constructor
  · rintro ⟨pieces, hraw, hpieces, rfl⟩
    rw [listItems, hraw, splitCommas_eq_splitOn]
    cases pieces with
    | nil => rfl
    | cons first others => rw [List.splitOn_intercalate _ hpieces (List.cons_ne_nil _ _)]
  · rintro rfl
    refine ⟨splitCommas raw.toList, ?_, fun piece => comma_notMem_of_mem_splitCommas, rfl⟩
    rw [splitCommas_eq_splitOn, List.intercalate_splitOn]

theorem trimmed_of_mem_listItems {raw name : String} (h : name ∈ listItems raw) : Trimmed name := by
  obtain ⟨hname, hne⟩ := List.mem_filter.1 h
  obtain ⟨piece, -, rfl⟩ := List.mem_map.1 hname
  exact trimmed_trim (by simpa using hne)

/-- In a list of everything of its kind a thing is found by its name alone. -/
theorem find?_name_eq_some_iff {α : Type} {all : List α} {name : α → String} {s : String} {a : α}
    (hall : ∀ a, a ∈ all) (hname : Function.Injective name) :
    all.find? (name · == s) = some a ↔ name a = s := by
  constructor
  · exact fun h => eq_of_beq (List.find?_some h :)
  · rintro rfl
    obtain ⟨b, hb⟩ := Option.isSome_iff_exists.1
      (List.find?_isSome (p := (name · == name a)).2 ⟨a, hall a, beq_self_eq_true _⟩)
    rw [hb, hname (eq_of_beq (List.find?_some hb :) : name b = name a)]

def HistoryKey.words : HistoryKey → List String
  | numeric => ["numeric"]
  | lexicalTimestamp => ["lexicalTimestamp", "lexical_timestamp"]

theorem HistoryKey.read?_eq_some_iff {raw : String} {key : HistoryKey} :
    read? raw = some key ↔ trim raw ∈ key.words := by
  rw [read?]
  generalize trim raw = s
  by_cases hsecond : s = "lexical_timestamp"
  · cases key <;> simp [hsecond, words]
  · have hname : Function.Injective name := by intro a b; cases a <;> cases b <;> decide
    rw [if_neg hsecond, ofName?, find?_name_eq_some_iff (fun a => by cases a <;> decide) hname]
    cases key <;> simp [name, words, hsecond, eq_comm]

def LogLevel.words : LogLevel → List String
  | warn => ["warn", "warning"]
  | level => [level.name]

theorem LogLevel.read?_eq_some_iff {raw : String} {level : LogLevel} :
    read? raw = some level ↔ lower (trim raw) ∈ level.words := by
  rw [read?]
  generalize lower (trim raw) = s
  by_cases hsecond : s = "warning"
  · cases level <;> simp [hsecond, words, name]
  · have hname : Function.Injective name := by intro a b; cases a <;> cases b <;> decide
    rw [if_neg hsecond, ofName?, find?_name_eq_some_iff (fun a => by cases a <;> decide) hname]
    cases level <;> simp [name, words, hsecond, eq_comm]

def boolWords : Bool → List String
  | true => trueWords
  | false => falseWords

namespace Variable

theorem mem_all (v : Variable) : v ∈ all := by cases v <;> decide

theorem name_inj {v v' : Variable} : v.name = v'.name ↔ v = v' := by
  refine ⟨fun h => ?_, fun h => congrArg _ h⟩
  have hinj : ∀ v ∈ all, ∀ v' ∈ all, v.name = v'.name → v = v' := by decide +kernel
  exact hinj v v.mem_all v' v'.mem_all h

/-- The setting that a variable gives. -/
def field : Variable → ConfigField
  | windowMillis => .windowMillis
  | component => .component
  | userPrefix => .userPrefix
  | anonymousUser => .anonymousUser
  | concatCap => .concatCap
  | historySize => .historySize
  | historyKey => .historyKey
  | sinks => .sinks
  | logLevel => .logLevel
  | logJson => .logJson

def reader : (v : Variable) → ValueReader v.field.Content
  | windowMillis => readUInt64Value
  | component | userPrefix | anonymousUser => readTextValue
  | concatCap | historySize => readUInt32Value
  | historyKey => readNameValue HistoryKey.read?
  | sinks => readListValue
  | logLevel => readNameValue LogLevel.read?
  | logJson => readBoolValue

/-- The settings that a text denotes. Blanks around the text say nothing. -/
def Denotes : (v : Variable) → String → v.field.Content → Prop
  | windowMillis => fun raw (n : UInt64) => IsNumeral (trim raw) n.toNat
  | concatCap | historySize => fun raw (n : UInt32) => IsNumeral (trim raw) n.toNat
  | component | userPrefix | anonymousUser => fun raw (s : String) => s = trim raw ∧ s ≠ ""
  | historyKey => fun raw (key : HistoryKey) => trim raw ∈ key.words
  | sinks => fun raw (names : List String) => Listed raw names ∧ GoodLength names
  | logLevel => fun raw (level : LogLevel) => lower (trim raw) ∈ level.words
  | logJson => fun raw (b : Bool) => lower (trim raw) ∈ boolWords b

/-- The report of a text that is not blank. -/
def misread (v : Variable) (raw : String) : EnvironmentError :=
  match v with
  | windowMillis | concatCap | historySize => .noInteger v raw
  | logJson => .noBool v raw
  | _ => .unknownName v raw

/-- The report of a text that denotes nothing. A list is blank if it has no names, and else it has
too many. -/
def Refuses (v : Variable) (raw : String) (e : EnvironmentError) : Prop :=
  match v with
  | sinks => ∃ names, Listed raw names ∧
      e = if names = [] then .blank v else .tooManyItems v names.length
  | _ => e = if trim raw = "" then .blank v else v.misread raw

end Variable

section Readers
variable {α : Type} {v : Variable} {raw : String} {e misread : EnvironmentError}
  {read : String → Except EnvironmentError α}

theorem readNonBlank_eq_ok_iff {a : α} :
    readNonBlank read v raw = .ok a ↔ trim raw ≠ "" ∧ read (trim raw) = .ok a := by
  by_cases hblank : trim raw = "" <;> simp [readNonBlank, hblank]

theorem report_of_readNonBlank (h : readNonBlank read v raw = .error e)
    (hread : ∀ e, read (trim raw) = .error e → e = misread) :
    e = if trim raw = "" then .blank v else misread := by
  by_cases hblank : trim raw = "" <;> simp only [readNonBlank, hblank, if_true, if_false] at h ⊢
  · exact (Except.error.inj h).symm
  · exact hread e h

theorem readNatValue_eq_ok_iff {bound n : Nat} :
    readNatValue bound v raw = .ok n ↔ n < bound ∧ IsNumeral (trim raw) n := by
  rw [readNatValue, readNonBlank_eq_ok_iff, ← readNat?_eq_some_iff]
  constructor
  · rintro ⟨-, h⟩
    split at h
    next m hm =>
      split at h
      next hlt => cases h; exact ⟨hlt, hm⟩
      next => cases h
    next => cases h
  · rintro ⟨hlt, hn⟩
    exact ⟨(readNat?_eq_some_iff.1 hn).ne_empty, by simp [hn, hlt]⟩

theorem report_of_readNatValue {bound : Nat} (h : readNatValue bound v raw = .error e) :
    e = if trim raw = "" then .blank v else .noInteger v raw := by
  refine report_of_readNonBlank h fun e he => ?_
  split at he
  next => split at he <;> cases he; rfl
  next => cases he; rfl

/-- A number is read as a word of as many values as its bound. -/
theorem readWordValue_eq_ok_iff {bound : Nat} {ofNat : Nat → α} {toNat : α → Nat}
    (hofNat : ∀ a, ofNat (toNat a) = a) (htoNat : ∀ n < bound, toNat (ofNat n) = n)
    (hlt : ∀ a, toNat a < bound) {a : α} :
    (readNatValue bound v raw).map ofNat = .ok a ↔ IsNumeral (trim raw) (toNat a) := by
  simp only [map_eq_ok_iff, readNatValue_eq_ok_iff]
  constructor
  · rintro ⟨m, ⟨hm, hnumeral⟩, rfl⟩
    rwa [htoNat m hm]
  · exact fun h => ⟨toNat a, ⟨hlt a, h⟩, hofNat a⟩

theorem readUInt64Value_eq_ok_iff {n : UInt64} :
    readUInt64Value v raw = .ok n ↔ IsNumeral (trim raw) n.toNat :=
  readWordValue_eq_ok_iff (fun _ => UInt64.ofNat_toNat) (fun _ => UInt64.toNat_ofNat_of_lt')
    UInt64.toNat_lt_size

theorem readUInt32Value_eq_ok_iff {n : UInt32} :
    readUInt32Value v raw = .ok n ↔ IsNumeral (trim raw) n.toNat :=
  readWordValue_eq_ok_iff (fun _ => UInt32.ofNat_toNat) (fun _ => UInt32.toNat_ofNat_of_lt')
    UInt32.toNat_lt_size

theorem readTextValue_eq_ok_iff {s : String} :
    readTextValue v raw = .ok s ↔ s = trim raw ∧ s ≠ "" := by
  rw [readTextValue, readNonBlank_eq_ok_iff, Except.ok.injEq, eq_comm (a := trim raw)]
  exact ⟨fun ⟨hne, hs⟩ => ⟨hs, hs ▸ hne⟩, fun ⟨hs, hne⟩ => ⟨hs ▸ hne, hs⟩⟩

theorem report_of_readTextValue (h : readTextValue v raw = .error e) :
    e = if trim raw = "" then .blank v else .unknownName v raw :=
  report_of_readNonBlank h fun e he => by cases he

/-- The empty text names nothing, so what is named is not blank. -/
theorem readNameValue_eq_ok_iff {find : String → Option α} {a : α} (hempty : find "" = none) :
    readNameValue find v raw = .ok a ↔ find (trim raw) = some a := by
  rw [readNameValue, readNonBlank_eq_ok_iff]
  by_cases hblank : trim raw = ""
  · simp [hblank, hempty]
  · cases find (trim raw) <;> simp [hblank]

theorem readHistoryKey_eq_ok_iff {key : HistoryKey} :
    readNameValue HistoryKey.read? v raw = .ok key ↔ trim raw ∈ key.words := by
  rw [readNameValue_eq_ok_iff (by decide), HistoryKey.read?_eq_some_iff, trim_trim]

theorem readLogLevel_eq_ok_iff {level : LogLevel} :
    readNameValue LogLevel.read? v raw = .ok level ↔ lower (trim raw) ∈ level.words := by
  rw [readNameValue_eq_ok_iff (by decide), LogLevel.read?_eq_some_iff, trim_trim]

theorem report_of_readNameValue {find : String → Option α}
    (h : readNameValue find v raw = .error e) :
    e = if trim raw = "" then .blank v else .unknownName v raw := by
  refine report_of_readNonBlank h fun e he => ?_
  split at he <;> cases he
  rfl

theorem readBoolValue_eq_ok_iff {b : Bool} :
    readBoolValue v raw = .ok b ↔ lower (trim raw) ∈ boolWords b := by
  rw [readBoolValue, readNonBlank_eq_ok_iff]
  generalize trim raw = s
  have hdisjoint : ∀ word ∈ trueWords, word ∉ falseWords := by decide
  have hblank : lower s ∈ boolWords b → s ≠ "" := by
    rintro hword rfl
    revert b
    decide
  by_cases htrue : lower s ∈ trueWords
  · cases b <;> simp_all [boolWords]
  by_cases hfalse : lower s ∈ falseWords
  · cases b <;> simp_all [boolWords]
  · cases b <;> simp [boolWords, htrue, hfalse]

theorem report_of_readBoolValue (h : readBoolValue v raw = .error e) :
    e = if trim raw = "" then .blank v else .noBool v raw := by
  refine report_of_readNonBlank h fun e he => ?_
  split at he
  next => cases he
  next => split at he <;> cases he; rfl

theorem readListValue_eq_ok_iff {names : List String} :
    readListValue v raw = .ok names ↔ Listed raw names ∧ GoodLength names := by
  have hmax : maxListItems = 64 := rfl
  rw [listed_iff, readListValue]
  generalize listItems raw = items
  by_cases hnone : items = []
  · simp only [hnone, if_true, reduceCtorEq, false_iff]
    rintro ⟨rfl, hlength, -⟩
    exact absurd hlength (by decide)
  have hsome : 1 ≤ items.length := List.length_pos_iff.2 hnone
  by_cases hmany : maxListItems < items.length
  · simp only [hnone, hmany, if_true, if_false, reduceCtorEq, false_iff]
    rintro ⟨rfl, -, hlength⟩
    omega
  · simp only [hnone, hmany, if_false, Except.ok.injEq]
    exact ⟨fun h => ⟨h.symm, h ▸ ⟨hsome, by omega⟩⟩, fun h => h.1.symm⟩

theorem report_of_readListValue (h : readListValue v raw = .error e) :
    e = if listItems raw = [] then .blank v else .tooManyItems v (listItems raw).length := by
  rw [readListValue] at h
  split at h
  next hnone => rw [if_pos hnone]; exact (Except.error.inj h).symm
  next hsome =>
    split at h <;> cases h
    rw [if_neg hsome]

end Readers

namespace Variable
variable {v : Variable} {raw : String} {e : EnvironmentError}

theorem reader_eq_ok_iff {a : v.field.Content} : v.reader v raw = .ok a ↔ v.Denotes raw a := by
  cases v with
  | windowMillis => exact readUInt64Value_eq_ok_iff
  | concatCap | historySize => exact readUInt32Value_eq_ok_iff
  | component | userPrefix | anonymousUser => exact readTextValue_eq_ok_iff
  | historyKey => exact readHistoryKey_eq_ok_iff
  | logLevel => exact @readLogLevel_eq_ok_iff .logLevel raw a
  | sinks => exact readListValue_eq_ok_iff
  | logJson => exact readBoolValue_eq_ok_iff

theorem refuses_of_reader (h : v.reader v raw = .error e) : v.Refuses raw e := by
  cases v with
  | windowMillis | concatCap | historySize =>
    exact report_of_readNatValue (map_eq_error_iff.1 h)
  | component | userPrefix | anonymousUser => exact report_of_readTextValue h
  | historyKey => exact report_of_readNameValue h
  | logLevel => exact @report_of_readNameValue _ .logLevel raw e LogLevel.read? h
  | sinks => exact ⟨_, listed_iff.2 rfl, report_of_readListValue h⟩
  | logJson => exact report_of_readBoolValue h

/-- A text has one report at most. -/
theorem Refuses.unique {e' : EnvironmentError} (h : v.Refuses raw e) (h' : v.Refuses raw e') :
    e = e' := by
  cases v with
  | sinks =>
    obtain ⟨names, hnames, rfl⟩ := h
    obtain ⟨names', hnames', rfl⟩ := h'
    rw [listed_iff.1 hnames, listed_iff.1 hnames']
  | _ => exact Eq.trans h (Eq.symm h')

theorem reader_eq_error_iff :
    v.reader v raw = .error e ↔ (¬∃ a, v.Denotes raw a) ∧ v.Refuses raw e := by
  simp only [← reader_eq_ok_iff]
  cases hread : v.reader v raw with
  | ok a => simp
  | error e' =>
    have hrefuses := refuses_of_reader hread
    simp only [Except.error.injEq, reduceCtorEq, exists_false, not_false_eq_true, true_and]
    exact ⟨fun h => h ▸ hrefuses, fun h => hrefuses.unique h⟩

/-- A variable that is not there is well-formed, and one whose text denotes a setting. -/
def WellFormed (env : String → Option String) (v : Variable) : Prop :=
  ∀ raw, env v.name = some raw → ∃ a, v.Denotes raw a

variable {env : String → Option String}

theorem readVariable_eq_ok_iff {a? : Option v.field.Content} :
    readVariable env v v.reader = .ok a? ↔ Option.Rel v.Denotes (env v.name) a? := by
  rw [readVariable]
  cases henv : env v.name with
  | none => cases a? <;> simp
  | some raw =>
    cases a? with
    | none => simp [map_eq_ok_iff]
    | some a => simp [map_eq_ok_iff, reader_eq_ok_iff]

theorem readVariable_eq_error_iff :
    readVariable env v v.reader = .error e ↔ ¬v.WellFormed env ∧
      ∃ raw, env v.name = some raw ∧ v.Refuses raw e := by
  rw [readVariable, WellFormed]
  cases henv : env v.name with
  | none => simp
  | some raw => simp [map_eq_error_iff, reader_eq_error_iff]

theorem error?_readVariable_eq_none_iff :
    error? (readVariable env v v.reader) = none ↔ v.WellFormed env := by
  rw [error?_eq_none_iff, WellFormed]
  simp only [readVariable_eq_ok_iff]
  cases henv : env v.name with
  | none => simpa using ⟨none, Option.Rel.none⟩
  | some raw =>
    simp only [Option.some.injEq, forall_eq']
    constructor
    · rintro ⟨_, ⟨h⟩⟩
      exact ⟨_, h⟩
    · exact fun ⟨a, ha⟩ => ⟨some a, .some ha⟩

end Variable

namespace Layer
variable {env : String → Option String} {l : Layer} {e : EnvironmentError}

theorem ofEnvironment_eq_ok_iff_read : ofEnvironment env = .ok l ↔
    l.version = none ∧ ∀ v : Variable, readVariable env v v.reader = .ok (l.get v.field) := by
  simp only [ofEnvironment, bind_eq_ok_iff]
  constructor
  · rintro ⟨_, hwindow, _, hcomponent, _, hprefix, _, hanonymous, _, hcap, _, hsize, _, hkey, _,
      hsinks, _, hlevel, _, hjson, hlayer⟩
    cases hlayer
    refine ⟨rfl, fun v => ?_⟩
    cases v <;> assumption
  · rintro ⟨hversion, h⟩
    refine ⟨_, h .windowMillis, _, h .component, _, h .userPrefix, _, h .anonymousUser, _,
      h .concatCap, _, h .historySize, _, h .historyKey, _, h .sinks, _, h .logLevel, _,
      h .logJson, ?_⟩
    cases l
    cases hversion
    rfl

/-- The settings of an environment are what its variables denote one by one. -/
theorem ofEnvironment_eq_ok_iff : ofEnvironment env = .ok l ↔
    l.version = none ∧ ∀ v : Variable, Option.Rel v.Denotes (env v.name) (l.get v.field) := by
  simp only [ofEnvironment_eq_ok_iff_read, Variable.readVariable_eq_ok_iff]

theorem exists_denotes (v : Variable) {a : v.field.Content} (hl : ofEnvironment env = .ok l)
    (ha : l.get v.field = some a) : ∃ raw, env v.name = some raw ∧ v.Denotes raw a := by
  have hrel := (ofEnvironment_eq_ok_iff.1 hl).2 v
  rw [ha] at hrel
  cases hraw : env v.name with
  | none => simp [hraw] at hrel
  | some raw => exact ⟨raw, rfl, Option.rel_some_some.1 (hraw ▸ hrel)⟩

theorem findSome?_cons_eq_or {α β : Type} (f : α → Option β) (a : α) (rest : List α) :
    (a :: rest).findSome? f = (f a).or (rest.findSome? f) := by
  rw [List.findSome?_cons]
  cases f a <;> rfl

theorem error?_ofEnvironment (env : String → Option String) : error? (ofEnvironment env) =
    Variable.all.findSome? fun v => error? (readVariable env v v.reader) := by
  simp only [Variable.all, findSome?_cons_eq_or, List.findSome?_nil, Variable.reader]
  rw [ofEnvironment]
  -- no variable is read otherwise for what those before it give
  exact error?_bind fun _ => error?_bind fun _ => error?_bind fun _ => error?_bind fun _ =>
    error?_bind fun _ => error?_bind fun _ => error?_bind fun _ => error?_bind fun _ =>
      error?_bind fun _ => error?_bind fun _ => rfl

/-- The error is that of the first variable that is not well-formed. -/
theorem ofEnvironment_eq_error_iff : ofEnvironment env = .error e ↔
    ∃ earlier v later, Variable.all = earlier ++ v :: later ∧ (∀ u ∈ earlier, u.WellFormed env) ∧
      ¬v.WellFormed env ∧ ∃ raw, env v.name = some raw ∧ v.Refuses raw e := by
  simp only [← error?_eq_some_iff, error?_ofEnvironment, List.findSome?_eq_some_iff,
    Variable.error?_readVariable_eq_none_iff]
  simp only [error?_eq_some_iff, Variable.readVariable_eq_error_iff]
  constructor
  · rintro ⟨earlier, v, later, hall, hmalformed, hearlier⟩
    exact ⟨earlier, v, later, hall, hearlier, hmalformed⟩
  · rintro ⟨earlier, v, later, hall, hearlier, hmalformed⟩
    exact ⟨earlier, v, later, hall, hmalformed, hearlier⟩

theorem exists_ofEnvironment_iff :
    (∃ l, ofEnvironment env = .ok l) ↔ ∀ v : Variable, v.WellFormed env := by
  rw [← error?_eq_none_iff, error?_ofEnvironment, List.findSome?_eq_none_iff]
  simp only [Variable.error?_readVariable_eq_none_iff]
  exact ⟨fun h v => h v v.mem_all, fun h v _ => h v⟩

theorem ofEnvironment_congr {env' : String → Option String}
    (h : ∀ v : Variable, env' v.name = env v.name) : ofEnvironment env' = ofEnvironment env := by
  simp only [ofEnvironment, readVariable, h]

theorem get_ofEnvironment_congr {env' : String → Option String} {l' : Layer} {v : Variable}
    (hl : ofEnvironment env = .ok l) (hl' : ofEnvironment env' = .ok l')
    (h : env' v.name = env v.name) : l'.get v.field = l.get v.field := by
  have hread := (ofEnvironment_eq_ok_iff_read.1 hl).2 v
  have hread' := (ofEnvironment_eq_ok_iff_read.1 hl').2 v
  rw [readVariable, h, ← readVariable, hread] at hread'
  exact (Except.ok.inj hread').symm

theorem version_ofEnvironment (h : ofEnvironment env = .ok l) : l.version = none :=
  (ofEnvironment_eq_ok_iff.1 h).1

end Layer

/-! The environment of given settings. -/

theorem trim_natChars (n : Nat) :
    trim (String.ofList (natChars n)) = String.ofList (natChars n) := by
  have hdigit (c : Char) (h : c.isDigit = true) : isBlank c = false := by
    simp only [Char.isDigit, Bool.and_eq_true, decide_eq_true_eq] at h
    have h1 : 48 ≤ c.toNat := h.1
    have h2 : c.toNat ≤ 57 := h.2
    simp [isBlank]
    omega
  rw [trim_eq_self_iff, String.toList_ofList]
  exact trimBlanks_eq_self
    (fun c hc => hdigit c (isDigit_of_mem_natChars (List.mem_of_mem_head? hc)))
    fun c hc => hdigit c (isDigit_of_mem_natChars (List.mem_of_getLast? hc))

theorem isNumeral_natChars (n : Nat) : IsNumeral (trim (String.ofList (natChars n))) n := by
  rw [trim_natChars]
  exact ⟨natChars n, .inl String.toList_ofList, natChars_ne_nil n,
    fun c => isDigit_of_mem_natChars, ofDigits_natChars n⟩

theorem listed_intercalate {names : List String}
    (h : ∀ name ∈ names, Trimmed name ∧ ',' ∉ name.toList) :
    Listed (",".intercalate names) names := by
  refine ⟨names.map String.toList, String.toList_intercalate, ?_, ?_⟩
  · simpa using fun name hname => (h name hname).2
  · -- each piece is the name it is made from
    have htrim : names.map (fun name => trim (String.ofList name.toList)) = names := by
      refine (List.map_congr_left fun name hname => ?_).trans (List.map_id names)
      rw [String.ofList_toList, (h name hname).1.2, id]
    rw [List.map_map, Function.comp_def, htrim, List.filter_eq_self.2]
    simpa using fun name hname => (h name hname).1.1

theorem HistoryKey.trim_name_mem_words (key : HistoryKey) : trim key.name ∈ key.words := by
  cases key <;> decide

theorem LogLevel.lower_name_mem_words (level : LogLevel) :
    lower (trim level.name) ∈ level.words := by
  cases level <;> decide

def boolText (b : Bool) : String := if b then "true" else "false"

theorem lower_boolText_mem_boolWords (b : Bool) : lower (trim (boolText b)) ∈ boolWords b := by
  cases b <;> decide

namespace Variable

def render : (v : Variable) → v.field.Content → String
  | windowMillis => fun n : UInt64 => String.ofList (natChars n.toNat)
  | concatCap | historySize => fun n : UInt32 => String.ofList (natChars n.toNat)
  | component | userPrefix | anonymousUser => fun s : String => s
  | historyKey => HistoryKey.name
  | sinks => fun names : List String => ",".intercalate names
  | logLevel => LogLevel.name
  | logJson => boolText

/-- A text without blanks around it that is not empty, and good names without commas. -/
def Clean : (v : Variable) → v.field.Content → Prop
  | component | userPrefix | anonymousUser => fun s : String => Trimmed s
  | sinks => fun names : List String =>
    GoodLength names ∧ ∀ name ∈ names, Trimmed name ∧ ',' ∉ name.toList
  | windowMillis | concatCap | historySize | historyKey | logLevel | logJson => fun _ => True

theorem denotes_render {v : Variable} {a : v.field.Content} (h : v.Clean a) :
    v.Denotes (v.render a) a := by
  cases v with
  | windowMillis | concatCap | historySize => exact isNumeral_natChars _
  | component | userPrefix | anonymousUser => exact ⟨h.2.symm, h.1⟩
  | historyKey => exact HistoryKey.trim_name_mem_words a
  | sinks => exact ⟨listed_intercalate h.2, h.1⟩
  | logLevel => exact LogLevel.lower_name_mem_words a
  | logJson => exact lower_boolText_mem_boolWords a

end Variable

namespace Layer

/-- Settings as variables can give them. -/
structure Clean (l : Layer) : Prop where
  version : l.version = none
  field : ∀ (v : Variable) a, l.get v.field = some a → v.Clean a

/-- Each setting in its variable, and nothing else. -/
def toEnvironment (l : Layer) (name : String) : Option String :=
  (Variable.all.find? (·.name == name)).bind fun v => (l.get v.field).map v.render

theorem toEnvironment_name (l : Layer) (v : Variable) :
    l.toEnvironment v.name = (l.get v.field).map v.render := by
  have hfind : Variable.all.find? (·.name == v.name) = some v :=
    (find?_name_eq_some_iff Variable.mem_all fun _ _ => Variable.name_inj.1).2 rfl
  rw [toEnvironment, hfind, Option.bind_some]

theorem ofEnvironment_toEnvironment {l : Layer} (h : l.Clean) :
    ofEnvironment l.toEnvironment = .ok l := by
  refine ofEnvironment_eq_ok_iff.2 ⟨h.version, fun v => ?_⟩
  rw [toEnvironment_name]
  cases hget : l.get v.field with
  | none => exact .none
  | some a => exact .some (Variable.denotes_render (h.field v a hget))

end Layer

/-- In a list of a good length without blank names only a repeated name is a fault. -/
theorem Config.Reports.duplicateSink {c : Config} {e : ConfigError} (h : c.Reports e .sinks)
    (hlength : GoodLength c.sinks) (hnames : ∀ sink ∈ c.sinks, trim sink ≠ "") :
    ∃ name, e = .duplicateSink name := by
  rcases h with ⟨hbad, -⟩ | ⟨-, before, sink, after, hsinks, -, ⟨hblank, -⟩ | ⟨-, -, rfl⟩⟩
  · exact absurd hlength hbad
  · exact absurd hblank (hnames sink (by simp [hsinks]))
  · exact ⟨_, rfl⟩

theorem sinks_of_ofEnvironment {env : String → Option String} {l : Layer} {names : List String}
    (hl : Layer.ofEnvironment env = .ok l) (hnames : l.sinks = some names) :
    GoodLength names ∧ ∀ name ∈ names, Trimmed name := by
  obtain ⟨raw, -, hlisted, hlength⟩ := Layer.exists_denotes .sinks hl hnames
  refine ⟨hlength, fun name hname => ?_⟩
  rw [listed_iff.1 hlisted] at hname
  exact trimmed_of_mem_listItems hname

/-- Settings are read from an environment just if all its variables are well-formed, and are then
what these denote one by one; else the first one that is not is reported. Settings that variables
can give are read back from their usual texts, and sinks that variables give are rejected only for a
name that is repeated. -/
theorem variables_read_iff (env : String → Option String) :
    ((∃ l, Layer.ofEnvironment env = .ok l) ↔ ∀ v : Variable, v.WellFormed env) ∧
    (∀ l, Layer.ofEnvironment env = .ok l ↔
      l.version = none ∧ ∀ v : Variable, Option.Rel v.Denotes (env v.name) (l.get v.field)) ∧
    (∀ env' l l' (v : Variable), Layer.ofEnvironment env = .ok l →
      Layer.ofEnvironment env' = .ok l' → env' v.name = env v.name →
        l'.get v.field = l.get v.field) ∧
    (∀ env', (∀ v : Variable, env' v.name = env v.name) →
      Layer.ofEnvironment env' = Layer.ofEnvironment env) ∧
    (∀ e, Layer.ofEnvironment env = .error e ↔
      ∃ earlier v later, Variable.all = earlier ++ v :: later ∧
        (∀ u ∈ earlier, u.WellFormed env) ∧ ¬v.WellFormed env ∧
          ∃ raw, env v.name = some raw ∧ v.Refuses raw e) ∧
    (∀ l : Layer, l.Clean → Layer.ofEnvironment l.toEnvironment = .ok l) ∧
    ∀ l names, Layer.ofEnvironment env = .ok l → l.sinks = some names →
      ∀ (base : Config) e, (base.apply l).validate = .error e → e.field = .sinks →
        ∃ name, e = .duplicateSink name := by
  refine ⟨Layer.exists_ofEnvironment_iff, fun l => Layer.ofEnvironment_eq_ok_iff,
    fun env' l l' v => Layer.get_ofEnvironment_congr, fun env' => Layer.ofEnvironment_congr,
    fun e => Layer.ofEnvironment_eq_error_iff, fun l => Layer.ofEnvironment_toEnvironment,
    fun l names hl hnames base e he hfield => ?_⟩
  obtain ⟨hlength, htrimmed⟩ := sinks_of_ofEnvironment hl hnames
  have hsinks : (base.apply l).sinks = names := by rw [Config.apply, hnames, Option.getD_some]
  obtain ⟨_, f, _, -, -, -, hreports, hf⟩ :=
    Config.fault?_eq_some_iff.1 (Config.validate_eq_error_iff.1 he)
  obtain rfl : f = .sinks := hf.symm.trans hfield
  refine hreports.duplicateSink (hsinks ▸ hlength) fun sink hsink => ?_
  obtain ⟨hne, htrim⟩ := htrimmed sink (hsinks ▸ hsink)
  rwa [htrim]

/-- An environment of two variables. -/
def twoVariables (window sinks : String) (name : String) : Option String :=
  if name = Variable.windowMillis.name then some window
  else if name = Variable.sinks.name then some sinks else none

theorem variables_read_iff_two :
    Layer.ofEnvironment (twoVariables " +07\n" "a,, b c,a,") =
      .ok { windowMillis := some 7, sinks := some ["a", "b c", "a"] } ∧
    Layer.ofEnvironment (twoVariables "-7" ",") = .error (.noInteger .windowMillis "-7") ∧
    Layer.ofEnvironment (Layer.toEnvironment { sinks := some ["b c", "a"] }) =
      .ok { sinks := some ["b c", "a"] } := by
  refine ⟨?_, ?_, ?_⟩
  · refine ((variables_read_iff _).2.1 _).2 ⟨rfl, fun v => ?_⟩
    cases v with
    | windowMillis => exact .some (readNat?_eq_some_iff.1 (by decide +kernel))
    | sinks =>
      exact .some ⟨⟨["a".toList, [], " b c".toList, ['a'], []], by decide +kernel⟩, by decide⟩
    | _ => exact .none
  · refine ((variables_read_iff _).2.2.2.2.1 _).2
      ⟨[], .windowMillis, _, rfl, by simp, fun hformed => ?_, "-7", rfl,
        (if_neg (by decide)).symm⟩
    obtain ⟨n, hn⟩ := hformed "-7" rfl
    have hread : readNat? (trim "-7") = none := by decide +kernel
    rw [readNat?_eq_some_iff.2 hn] at hread
    cases hread
  · refine (variables_read_iff fun _ => none).2.2.2.2.2.1 _ ⟨rfl, fun v a ha => ?_⟩
    cases v with
    | sinks => cases ha; exact ⟨by decide, by decide +kernel⟩
    | component | userPrefix | anonymousUser => cases ha
    | _ => trivial

end CallMetrics
