import CallMetrics.Toml.Lexeme
import CallMetrics.Toml.Moment
import CallMetrics.Toml.Number
import CallMetrics.Value

/-! Reading TOML. A text is a list of statements, which `Table.ofStatements?` puts together to one
table; a table is written once, either under its header or by dotted keys, but may get further
tables inside. Numbers that are no integers and dates are `foreign`. -/

namespace CallMetrics.Toml

/-- How a table came to be. -/
inductive Origin
  /-- Named on the way to another table. -/
  | passing
  | header
  | dotted
  deriving DecidableEq, Repr

inductive Node where
  /-- A value, which nothing can be added to. -/
  | closed (v : Value)
  | table (origin : Origin) (members : List (String × Node))
  /-- The items of an array of tables; the last one is open. -/
  | tables (before : List (List (String × Node))) (last : List (String × Node))

abbrev Table := List (String × Node)

namespace Table

def find? (name : String) (t : Table) : Option Node := Dict.find? name t

def replace (name : String) (n : Node) (t : Table) : Table :=
  t.map fun e => if e.1 = name then (name, n) else e

def put? (v : Value) : List String → Table → Option Table
  | [], _ => none
  | [name], t =>
    match t.find? name with
    | none => some (t ++ [(name, .closed v)])
    | some _ => none
  | name :: path, t =>
    match t.find? name with
    | none => (put? v path []).map fun sub => t ++ [(name, .table .dotted sub)]
    | some (.table .dotted sub) =>
      (put? v path sub).map fun sub => t.replace name (.table .dotted sub)
    | some _ => none

def open? (name : String) (t : Table) : Option Table :=
  match t.find? name with
  | none => some (t ++ [(name, .table .header [])])
  | some (.table .passing sub) => some (t.replace name (.table .header sub))
  | some _ => none

def openItem? (name : String) (t : Table) : Option Table :=
  match t.find? name with
  | none => some (t ++ [(name, .tables [] [])])
  | some (.tables before last) => some (t.replace name (.tables (before ++ [last]) []))
  | some _ => none

/-- Changes the table at a path; tables missing on the way are made. -/
def within? (change : Table → Option Table) : List String → Table → Option Table
  | [], t => change t
  | name :: path, t =>
    match t.find? name with
    | none => (within? change path []).map fun sub => t ++ [(name, .table .passing sub)]
    | some (.table origin sub) =>
      (within? change path sub).map fun sub => t.replace name (.table origin sub)
    | some (.tables before last) =>
      (within? change path last).map fun last => t.replace name (.tables before last)
    | some (.closed _) => none

end Table

mutual

def Node.toValue : Node → Value
  | .closed v => v
  | .table _ members => .record (membersToValues members)
  | .tables before last =>
    .list (itemsToValues before ++ [.record (membersToValues last)])

def membersToValues : List (String × Node) → List (String × Value)
  | [] => []
  | (name, n) :: rest => (name, n.toValue) :: membersToValues rest

def itemsToValues : List (List (String × Node)) → List Value
  | [] => []
  | members :: rest => .record (membersToValues members) :: itemsToValues rest

end

def readScalar (cs : List Char) : Option (Value × List Char) :=
  let (word, rest) := splitScalar cs.length cs
  if word = ['t', 'r', 'u', 'e'] then some (.bool true, rest)
  else if word = ['f', 'a', 'l', 's', 'e'] then some (.bool false, rest)
  else if isMoment word then some (.foreign, rest)
  else (Number.read? word).map fun
    | .integer n => (.int n, rest)
    | .other => (.foreign, rest)

def inlineRecord? (entries : List (List String × Value)) : Option Value :=
  (entries.foldlM (fun t e => Table.put? e.2 e.1 t) []).map fun t => .record (membersToValues t)

/-- How deep arrays and inline tables may stand in each other. -/
def maxNesting : Nat := 80

mutual

/-- Reads a value in which brackets stand in each other so deep at most; the fuel bounds the number
of values and entries inside. -/
def readValue : Nat → Nat → List Char → Option (Value × List Char)
  | 0, _, _ => none
  | fuel + 1, depth, cs =>
    match cs, depth with
    | '"' :: _, _ | '\x27' :: _, _ =>
      (readText cs).map fun (text, rest) => (.text (String.ofList text), rest)
    | '[' :: rest, depth + 1 =>
      (readItems fuel depth rest).map fun (items, rest) => (.list items, rest)
    | '{' :: rest, depth + 1 =>
      match readEntries fuel depth rest with
      | none => none
      | some (entries, rest) => (inlineRecord? entries).map fun v => (v, rest)
    | cs, _ => readScalar cs

def readItems : Nat → Nat → List Char → Option (List Value × List Char)
  | 0, _, _ => none
  | fuel + 1, depth, cs =>
    match skipLines cs.length cs with
    | ']' :: rest => some ([], rest)
    | cs =>
      match readValue fuel depth cs with
      | none => none
      | some (v, rest) =>
        match skipLines rest.length rest with
        | ',' :: rest => (readItems fuel depth rest).map fun (items, rest) => (v :: items, rest)
        | ']' :: rest => some ([v], rest)
        | _ => none

def readEntries : Nat → Nat → List Char → Option (List (List String × Value) × List Char)
  | 0, _, _ => none
  | fuel + 1, depth, cs =>
    match skipLines cs.length cs with
    | '}' :: rest => some ([], rest)
    | cs =>
      match readEntry fuel depth cs with
      | none => none
      | some (entry, rest) =>
        match skipLines rest.length rest with
        | ',' :: rest =>
          (readEntries fuel depth rest).map fun (entries, rest) => (entry :: entries, rest)
        | '}' :: rest => some ([entry], rest)
        | _ => none

/-- Reads an entry of an inline table; its key, its equals sign and its value may stand on lines of
their own. -/
def readEntry : Nat → Nat → List Char → Option ((List String × Value) × List Char)
  | 0, _, _ => none
  | fuel + 1, depth, cs =>
    match readKey cs with
    | none => none
    | some (path, rest) =>
      match skipLines rest.length rest with
      | '=' :: rest =>
        (readValue fuel depth (skipLines rest.length rest)).map fun (v, rest) => ((path, v), rest)
      | _ => none

end

inductive Statement
  | entry (path : List String) (v : Value)
  | table (path : List String)
  | item (path : List String)

def readStatement (cs : List Char) : Option (Statement × List Char) :=
  match cs with
  | '[' :: '[' :: rest =>
    match readKey rest with
    | some (path, ']' :: ']' :: rest) => some (.item path, rest)
    | _ => none
  | '[' :: rest =>
    match readKey rest with
    | some (path, ']' :: rest) => some (.table path, rest)
    | _ => none
  | _ =>
    match readKey cs with
    | some (path, '=' :: rest) =>
      (readValue (rest.length + 1) maxNesting (skipBlanks rest)).map fun (v, rest) =>
        (.entry path v, rest)
    | _ => none

/-- Reads statements up to the end of the text; the fuel bounds their number. -/
def readStatements : Nat → List Char → Option (List Statement)
  | 0, _ => none
  | fuel + 1, cs =>
    match skipLines cs.length cs with
    | [] => some []
    | '#' :: rest => if rest.all isLineChar then some [] else none
    | cs =>
      match readStatement cs with
      | none => none
      | some (statement, rest) =>
        match finishLine? rest with
        | none => none
        | some rest => (readStatements fuel rest).map (statement :: ·)

/-- A table being put together, and the path of the table that entries go to. -/
structure Assembly where
  root : Table
  current : List String

def Assembly.add? (a : Assembly) : Statement → Option Assembly
  | .entry path v => (a.root.within? (·.put? v path) a.current).map fun root => { a with root }
  | .table path =>
    match path.getLast? with
    | none => none
    | some name =>
      (a.root.within? (·.open? name) path.dropLast).map fun root => ⟨root, path⟩
  | .item path =>
    match path.getLast? with
    | none => none
    | some name =>
      (a.root.within? (·.openItem? name) path.dropLast).map fun root => ⟨root, path⟩

def Table.ofStatements? (statements : List Statement) : Option Table :=
  (statements.foldlM Assembly.add? ⟨[], []⟩).map (·.root)

def skipByteOrderMark : List Char → List Char
  | '\uFEFF' :: cs => cs
  | cs => cs

def read (s : String) : Option Value :=
  let cs := skipByteOrderMark s.toList
  match readStatements (cs.length + 1) cs with
  | none => none
  | some statements => (Table.ofStatements? statements).map fun t => .record (membersToValues t)

end CallMetrics.Toml
