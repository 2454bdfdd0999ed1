import CallMetrics.Proofs.Toml.Values

/-! Documents of settings are read back. Each line is one statement (`readStatements_lines`), and the
statements of a document whose names are told apart put its tables together again (`read_write`). -/

namespace CallMetrics.Toml

/-- A line of a document, with an empty line before each header. -/
inductive Line
  | setting (s : String × Plain)
  | header (name : String)

namespace Line

def name : Line → String
  | setting s => s.1
  | header name => name

def chars : Line → List Char
  | setting s => s.1.toList ++ ' ' :: '=' :: ' ' :: s.2.chars
  | header name => '\n' :: '[' :: (name.toList ++ [']'])

def statement : Line → Statement
  | setting s => .entry [s.1] s.2.toValue
  | header name => .table [name]

end Line

def lines (top : Settings) (tables : List (String × Settings)) : List Line :=
  top.map .setting ++ tables.flatMap fun t => .header t.1 :: t.2.map .setting

theorem write_eq (top : Settings) (tables : List (String × Settings)) :
    write top tables = String.ofList ((lines top tables).flatMap fun l => l.chars ++ ['\n']) := by
  have hsetting : settingLine = fun s => (Line.setting s).chars ++ ['\n'] :=
    funext fun s => by simp [settingLine, Line.chars]
  have htable : tableLines = fun t =>
      (Line.header t.1 :: t.2.map .setting).flatMap fun l => l.chars ++ ['\n'] :=
    funext fun t => by
      rw [tableLines, hsetting, List.flatMap_cons, List.flatMap_map]
      simp [Line.chars]
  rw [write, lines, hsetting, htable, List.flatMap_append, List.flatMap_map, List.flatMap_assoc]

theorem exists_cons_plainChars (p : Plain) : ∃ c cs, p.chars = c :: cs ∧ StartsContent c := by
  cases p with
  | nat n =>
    obtain ⟨c, cs, hchars, hdigit⟩ := Text.exists_cons_natChars n
    have hmarks : [' ', '\t', '#', '\n', '\r'].any Char.isDigit = false := by decide
    exact ⟨c, cs, hchars, fun h => List.any_eq_false.1 hmarks c h hdigit⟩
  | bool b =>
    cases b with
    | false => exact ⟨'f', _, rfl, by decide⟩
    | true => exact ⟨'t', _, rfl, by decide⟩
  | text s =>
    obtain ⟨c, cs, hchars, hc⟩ := exists_cons_textChars s
    exact ⟨c, cs, hchars, startsContent_quote hc⟩
  | texts items =>
    have hbracket : StartsContent '[' := by decide
    rw [Plain.chars]
    rcases items with _ | ⟨s, _ | ⟨s', more⟩⟩
    · exact ⟨'[', _, rfl, hbracket⟩
    · exact ⟨'[', _, rfl, hbracket⟩
    · exact ⟨'[', _, rfl, hbracket⟩

theorem readStatement_setting {s : String × Plain} (hname : Bare s.1) (rest : List Char) :
    readStatement ((Line.setting s).chars ++ '\n' :: rest) =
      some ((Line.setting s).statement, '\n' :: rest) := by
  have hchars : (Line.setting s).chars ++ '\n' :: rest =
      s.1.toList ++ ' ' :: '=' :: ' ' :: (s.2.chars ++ '\n' :: rest) := by simp [Line.chars]
  have hkey : readKey (s.1.toList ++ ' ' :: '=' :: ' ' :: (s.2.chars ++ '\n' :: rest)) =
      some ([s.1], '=' :: ' ' :: (s.2.chars ++ '\n' :: rest)) :=
    readKey_bare hname (by simp; decide) rfl (by decide)
  have hskip : skipBlanks (' ' :: (s.2.chars ++ '\n' :: rest)) = s.2.chars ++ '\n' :: rest := by
    obtain ⟨c, cs, hvalue, hc⟩ := exists_cons_plainChars s.2
    rw [hvalue]
    exact skipBlanks_content hc _
  have hvalue := readValue_chars s.2 rest ((' ' :: (s.2.chars ++ '\n' :: rest)).length + 1)
    (maxNesting - 1) (by simp; omega)
  obtain ⟨c, cs, hfirst, hc⟩ := hname.exists_cons
  have hbracket := (startsContent_of_isBareKeyChar hc).2.2.2
  rw [hchars]
  unfold readStatement
  split
  next h => exact absurd (List.cons.inj (hfirst ▸ h)).1 hbracket
  next h => exact absurd (List.cons.inj (hfirst ▸ h)).1 hbracket
  next =>
    rw [hkey]
    simp only [hskip]
    exact congrArg (Option.map _) hvalue

theorem readStatement_header {name : String} (hname : Bare name) (rest : List Char) :
    readStatement ('[' :: (name.toList ++ ']' :: '\n' :: rest)) =
      some (.table [name], '\n' :: rest) := by
  have hkey : readKey (name.toList ++ ']' :: '\n' :: rest) = some ([name], ']' :: '\n' :: rest) :=
    readKey_bare hname (by simp; decide) rfl (by decide)
  obtain ⟨c, cs, hfirst, hc⟩ := hname.exists_cons
  have hbracket := (startsContent_of_isBareKeyChar hc).2.2.2
  unfold readStatement
  split
  next h =>
    have htail := (List.cons.inj h).2
    exact absurd (List.cons.inj (hfirst ▸ htail)).1 hbracket
  next h =>
    rw [← (List.cons.inj h).2, hkey]
    rfl
  next h => exact absurd rfl (h _)

theorem readStatements_line {l : Line} (hname : Bare l.name) (fuel : Nat) (rest : List Char) :
    readStatements (fuel + 1) (l.chars ++ '\n' :: rest) =
      (readStatements fuel rest).map (l.statement :: ·) := by
  -- a statement is read at the first character that is no blank and begins no comment
  have hstep {cs cs' : List Char} {c : Char} (hskip : skipLines cs.length cs = c :: cs')
      (hc : c ≠ '#') (hread : readStatement (c :: cs') = some (l.statement, '\n' :: rest)) :
      readStatements (fuel + 1) cs = (readStatements fuel rest).map (l.statement :: ·) := by
    rw [readStatements, hskip]
    split
    next h => cases h
    next h => exact absurd (List.cons.inj h).1 hc
    next => rw [hread]; rfl
  obtain ⟨c, cs, hfirst, hc⟩ := hname.exists_cons
  obtain ⟨hcontent, -⟩ := startsContent_of_isBareKeyChar hc
  cases l with
  | setting s =>
    have hread := readStatement_setting hname rest
    have hchars : (Line.setting s).chars ++ '\n' :: rest =
        c :: (cs ++ ' ' :: '=' :: ' ' :: (s.2.chars ++ '\n' :: rest)) := by
      have hname' : s.1.toList = c :: cs := hfirst
      simp [Line.chars, hname']
    have hcomment : c ≠ '#' := by
      rintro rfl
      exact absurd hcontent (by decide)
    rw [hchars] at hread ⊢
    exact hstep (skipLines_content hcontent _ _) hcomment hread
  | header name =>
    have hread := readStatement_header hname rest
    have hchars : (Line.header name).chars ++ '\n' :: rest =
        '\n' :: '[' :: (name.toList ++ ']' :: '\n' :: rest) := by simp [Line.chars]
    have hskip := skipLines_content (by decide : StartsContent '[')
      ('[' :: (name.toList ++ ']' :: '\n' :: rest)).length (name.toList ++ ']' :: '\n' :: rest)
    rw [hchars]
    exact hstep ((skipLines_newLine _ _).trans hskip) (by decide) hread

theorem readStatements_lines {ls : List Line} (hnames : ∀ l ∈ ls, Bare l.name) (fuel : Nat)
    (hfuel : ls.length < fuel) :
    readStatements fuel (ls.flatMap (fun l => l.chars ++ ['\n']) ++ ['\n']) =
      some (ls.map Line.statement) := by
  induction ls generalizing fuel with
  | nil =>
    obtain ⟨fuel, rfl⟩ : ∃ n, fuel = n + 1 := ⟨fuel - 1, by omega⟩
    rfl
  | cons l ls ih =>
    obtain ⟨fuel, rfl⟩ : ∃ n, fuel = n + 1 := ⟨fuel - 1, by omega⟩
    have hrest := ih (fun l' hl => hnames l' (by simp [hl])) fuel (by simp at hfuel; omega)
    have hline := readStatements_line (hnames l (by simp)) fuel
      (ls.flatMap (fun l => l.chars ++ ['\n']) ++ ['\n'])
    rw [List.flatMap_cons, List.append_assoc, List.append_assoc, List.singleton_append, hline, hrest]
    rfl

/-! The statements put together. -/

def nodes (settings : Settings) : Table := settings.map fun s => (s.1, .closed s.2.toValue)

def tableNode (t : String × Settings) : String × Node := (t.1, .table .header (nodes t.2))

theorem map_fst_nodes (settings : Settings) : (nodes settings).map (·.1) = settings.map (·.1) := by
  simp [nodes]

namespace Table

theorem put?_new {t : Table} {name : String} (h : name ∉ t.map (·.1)) (v : Value) :
    put? v [name] t = some (t ++ [(name, .closed v)]) := by
  have hfind : t.find? name = none := Dict.find?_eq_none_iff.2 h
  rw [put?, hfind]

theorem find?_last {before : Table} {name : String} (h : name ∉ before.map (·.1)) (n : Node) :
    find? name (before ++ [(name, n)]) = some n := by
  have hnone : Dict.find? name before = none := Dict.find?_eq_none_iff.2 h
  rw [find?, Dict.find?_append, hnone]
  simp [Dict.find?]

theorem replace_last {before : Table} {name : String} (h : name ∉ before.map (·.1)) (n n' : Node) :
    (before ++ [(name, n)]).replace name n' = before ++ [(name, n')] := by
  have hbefore : before.map (fun e => if e.1 = name then (name, n') else e) = before := by
    refine (List.map_congr_left fun e he => ?_).trans (List.map_id before)
    have hne : e.1 ≠ name := fun heq => h (heq ▸ List.mem_map_of_mem he)
    exact if_neg hne
  simp [replace, hbefore]

end Table

namespace Assembly

theorem add?_entry {t : Table} {s : String × Plain} (h : s.1 ∉ t.map (·.1)) :
    add? ⟨t, []⟩ (Line.setting s).statement = some ⟨t ++ nodes [s], []⟩ := by
  simp [add?, Line.statement, Table.within?, Table.put?_new h, nodes]

theorem add?_entry_last {before sub : Table} {name : String} {s : String × Plain}
    (hname : name ∉ before.map (·.1)) (h : s.1 ∉ sub.map (·.1)) :
    add? ⟨before ++ [(name, .table .header sub)], [name]⟩ (Line.setting s).statement =
      some ⟨before ++ [(name, .table .header (sub ++ nodes [s]))], [name]⟩ := by
  simp [add?, Line.statement, Table.within?, Table.find?_last hname, Table.put?_new h,
    Table.replace_last hname, nodes]

theorem add?_header {t : Table} {current : List String} {name : String} (h : name ∉ t.map (·.1)) :
    add? ⟨t, current⟩ (Line.header name).statement =
      some ⟨t ++ [(name, .table .header [])], [name]⟩ := by
  have hfind : t.find? name = none := Dict.find?_eq_none_iff.2 h
  simp [add?, Line.statement, Table.within?, Table.open?, hfind]

/-- Entries go to the table that is open, at the root of the document or under the header that came
last; `place` puts the table where it stands. -/
theorem foldlM_add?_settings {place : Table → Assembly}
    (hadd : ∀ (t : Table) (s : String × Plain), s.1 ∉ t.map (·.1) →
      add? (place t) (Line.setting s).statement = some (place (t ++ nodes [s])))
    (settings : Settings) (t : Table) (hnames : (t.map (·.1) ++ settings.map (·.1)).Nodup) :
    (settings.map fun s => (Line.setting s).statement).foldlM add? (place t) =
      some (place (t ++ nodes settings)) := by
  induction settings generalizing t with
  | nil => simp [nodes]
  | cons s settings ih =>
    have hnew : s.1 ∉ t.map (·.1) := by
      intro h
      exact (List.nodup_append.1 hnames).2.2 _ h _ (by simp) rfl
    have hrest : ((t ++ nodes [s]).map (·.1) ++ settings.map (·.1)).Nodup := by
      simpa [map_fst_nodes] using hnames
    rw [List.map_cons, List.foldlM_cons, hadd t s hnew, Option.bind_eq_bind, Option.bind_some,
      ih _ hrest, List.append_assoc]
    rfl

/-- Tables under headers, one after the other. -/
theorem foldlM_add?_tables (tables : List (String × Settings)) (t : Table) (current : List String)
    (hnames : (t.map (·.1) ++ tables.map (·.1)).Nodup)
    (hsettings : ∀ table ∈ tables, (table.2.map (·.1)).Nodup) :
    (((tables.flatMap fun table => .header table.1 :: table.2.map .setting).map
        Line.statement).foldlM add? ⟨t, current⟩).map (·.root) = some (t ++ tables.map tableNode) := by
  induction tables generalizing t current with
  | nil => simp
  | cons table tables ih =>
    have hnew : table.1 ∉ t.map (·.1) := by
      intro h
      exact (List.nodup_append.1 hnames).2.2 _ h _ (by simp) rfl
    have hrest : ((t ++ [tableNode table]).map (·.1) ++ tables.map (·.1)).Nodup := by
      simpa [tableNode] using hnames
    have hentries : (table.2.map (Line.statement ∘ .setting)).foldlM add?
        ⟨t ++ [(table.1, .table .header [])], [table.1]⟩ =
          some ⟨t ++ [tableNode table], [table.1]⟩ :=
      foldlM_add?_settings (fun _ _ => add?_entry_last hnew) table.2 []
        (by simpa using hsettings table (by simp))
    have htables := ih (t ++ [tableNode table]) [table.1] hrest
      fun table' h => hsettings table' (by simp [h])
    rw [List.flatMap_cons, List.map_append, List.map_cons, List.map_map, List.foldlM_append,
      List.foldlM_cons, add?_header hnew]
    simp only [Option.bind_eq_bind, Option.bind_some, hentries, htables, List.map_cons,
      List.append_assoc, List.singleton_append]

end Assembly

theorem membersToValues_eq_map (t : Table) :
    membersToValues t = t.map fun e => (e.1, e.2.toValue) := by
  induction t with
  | nil => rfl
  | cons e t ih => rw [membersToValues, ih, List.map_cons]

/-- What the settings of a table say. -/
def membersOf (settings : Settings) : List (String × Value) :=
  settings.map fun s => (s.1, s.2.toValue)

/-- Names without quotes that are told apart, in a document and in each of its tables. -/
structure WellNamed (top : Settings) (tables : List (String × Settings)) : Prop where
  bare : ∀ l ∈ lines top tables, Bare l.name
  distinct : (top.map (·.1) ++ tables.map (·.1)).Nodup
  settings : ∀ table ∈ tables, (table.2.map (·.1)).Nodup

theorem ofStatements?_lines {top : Settings} {tables : List (String × Settings)}
    (h : WellNamed top tables) : Table.ofStatements? ((lines top tables).map Line.statement) =
      some (nodes top ++ tables.map tableNode) := by
  have htop : (top.map (Line.statement ∘ .setting)).foldlM Assembly.add? ⟨[], []⟩ =
      some ⟨nodes top, []⟩ :=
    Assembly.foldlM_add?_settings (fun _ _ => Assembly.add?_entry) top []
      (List.nodup_append.1 h.distinct).1
  have hnames : ((nodes top).map (·.1) ++ tables.map (·.1)).Nodup := by
    rw [map_fst_nodes]
    exact h.distinct
  have htables := Assembly.foldlM_add?_tables tables (nodes top) [] hnames h.settings
  rw [Table.ofStatements?, lines, List.map_append, List.map_map, List.foldlM_append, htop]
  exact htables

theorem skipByteOrderMark_lines {ls : List Line} (hnames : ∀ l ∈ ls, Bare l.name) :
    skipByteOrderMark (ls.flatMap (fun l => l.chars ++ ['\n']) ++ ['\n']) =
      ls.flatMap (fun l => l.chars ++ ['\n']) ++ ['\n'] := by
  have hkeep {c : Char} (hc : c ≠ '\uFEFF') (cs : List Char) : skipByteOrderMark (c :: cs) = c :: cs := by
    rw [skipByteOrderMark.eq_def]
    split
    next h => exact absurd (List.cons.inj h).1 hc
    next => rfl
  cases ls with
  | nil => rfl
  | cons l ls =>
    cases l with
    | header name => exact hkeep (by decide) _
    | setting s =>
      obtain ⟨c, cs, hchars, hc⟩ := (hnames (.setting s) (by simp)).exists_cons
      have hmark : c ≠ '\uFEFF' := by
        rintro rfl
        exact absurd hc (by decide)
      have hname : s.1.toList = c :: cs := hchars
      simp only [List.flatMap_cons, Line.chars, hname, List.cons_append]
      exact hkeep hmark _

theorem length_le_flatMap (ls : List Line) :
    ls.length ≤ (ls.flatMap fun l => l.chars ++ ['\n']).length := by
  induction ls with
  | nil => exact Nat.le_refl 0
  | cons l ls ih =>
    simp only [List.flatMap_cons, List.length_append, List.length_cons] at ih ⊢
    omega

/-- A written document is read as the record of its settings and tables. -/
theorem read_write {top : Settings} {tables : List (String × Settings)} (h : WellNamed top tables) :
    read (write top tables ++ "\n") =
      some (.record (membersOf top ++ tables.map fun t => (t.1, .record (membersOf t.2)))) := by
  have hnodes (settings : Settings) : membersToValues (nodes settings) = membersOf settings := by
    rw [membersToValues_eq_map, nodes, List.map_map]
    rfl
  have hvalue : membersToValues (nodes top ++ tables.map tableNode) =
      membersOf top ++ tables.map fun t => (t.1, .record (membersOf t.2)) := by
    rw [membersToValues_eq_map, List.map_append, ← membersToValues_eq_map, hnodes, List.map_map]
    simp [Function.comp_def, tableNode, Node.toValue, hnodes]
  have hchars : (write top tables ++ "\n").toList =
      (lines top tables).flatMap (fun l => l.chars ++ ['\n']) ++ ['\n'] := by
    rw [write_eq, String.toList_append, String.toList_ofList]
    rfl
  have hstatements := readStatements_lines h.bare
    (((lines top tables).flatMap (fun l => l.chars ++ ['\n']) ++ ['\n']).length + 1)
    (by have hlength := length_le_flatMap (lines top tables); rw [List.length_append]; omega)
  simp only [read, hchars, skipByteOrderMark_lines h.bare, hstatements, ofStatements?_lines h,
    Option.map_some, hvalue]

end CallMetrics.Toml
