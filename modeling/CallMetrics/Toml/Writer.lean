import CallMetrics.Json.Writer

/-! TOML text of a document of settings: the settings outside any table first, then one table after
the other. A text takes the first kind of quotes that shows it plainly, and basic quotes with
escapes if none does. -/

namespace CallMetrics.Toml
open Text

def isControl (c : Char) : Bool := (c.toNat < 32 && c != '\t' && c != '\n') || c.toNat == 127

def longestRun (q : Char) : Nat → List Char → Nat
  | run, [] => run
  | run, c :: rest => if c = q then longestRun q (run + 1) rest else max run (longestRun q 0 rest)

inductive Quoting
  | basic
  | literal
  | multiBasic
  | multiLiteral
  deriving DecidableEq, Repr

def quoting (cs : List Char) : Quoting :=
  let control := cs.any isControl
  let newline := cs.contains '\n'
  let backslash := cs.contains '\\'
  let double := longestRun '"' 0 cs
  let single := longestRun '\x27' 0 cs
  if !control && !backslash && double == 0 && !newline then .basic
  else if !control && single == 0 && !newline then .literal
  else if !control && !backslash && double ≤ 2 then .multiBasic
  else if !control && single ≤ 2 then .multiLiteral
  else if newline then .multiBasic
  else .basic

def upperHexDigit (n : Nat) : Char := if n < 10 then Char.ofNat (48 + n) else Char.ofNat (55 + n)

def escape (c : Char) : List Char :=
  if c = '\\' then ['\\', '\\']
  else if c = '\n' then ['\\', 'n']
  else if c = '\r' then ['\\', 'r']
  else if c = '\t' then ['\\', 't']
  else if c.toNat = 8 then ['\\', 'b']
  else if c.toNat = 12 then ['\\', 'f']
  else if c.toNat < 32 ∨ c.toNat = 127 then
    ['\\', 'u', '0', '0', upperHexDigit (c.toNat / 16), upperHexDigit (c.toNat % 16)]
  else [c]

/-- The inside of basic quotes. Between triple quotes a line end stays as it is, and only every
third quote in a row is escaped. -/
def basicChars (multi : Bool) : Nat → List Char → List Char
  | _, [] => []
  | run, c :: rest =>
    if c = '"' then
      if multi && run < 2 then '"' :: basicChars multi (run + 1) rest
      else '\\' :: '"' :: basicChars multi 0 rest
    else if multi && c == '\n' then '\n' :: basicChars multi 0 rest
    else escape c ++ basicChars multi 0 rest

def textChars (s : String) : List Char :=
  let cs := s.toList
  let opening := if cs.contains '\n' then ['\n'] else []
  match quoting cs with
  | .basic => '"' :: (basicChars false 0 cs ++ ['"'])
  | .literal => '\x27' :: (cs ++ ['\x27'])
  | .multiBasic => '"' :: '"' :: '"' :: (opening ++ basicChars true 0 cs ++ ['"', '"', '"'])
  | .multiLiteral =>
    '\x27' :: '\x27' :: '\x27' :: (opening ++ cs ++ ['\x27', '\x27', '\x27'])

/-- A list on one line if it has at most one item, else one item a line. -/
def listChars (items : List (List Char)) : List Char :=
  match items with
  | [] => ['[', ']']
  | [item] => '[' :: (item ++ [']'])
  | _ =>
    '[' :: '\n' :: (items.flatMap (fun item => Json.indent 2 ++ item ++ [',', '\n']) ++ [']'])

inductive Plain
  | nat (n : Nat)
  | bool (b : Bool)
  | text (s : String)
  | texts (items : List String)

def Plain.chars : Plain → List Char
  | nat n => natChars n
  | bool true => ['t', 'r', 'u', 'e']
  | bool false => ['f', 'a', 'l', 's', 'e']
  | text s => textChars s
  | texts items => listChars (items.map textChars)

abbrev Settings := List (String × Plain)

def settingLine (setting : String × Plain) : List Char :=
  setting.1.toList ++ ' ' :: '=' :: ' ' :: (setting.2.chars ++ ['\n'])

def tableLines (table : String × Settings) : List Char :=
  '\n' :: '[' :: (table.1.toList ++ ']' :: '\n' :: table.2.flatMap settingLine)

/-- A document; the names must be bare keys. -/
def write (top : Settings) (tables : List (String × Settings)) : String :=
  String.ofList (top.flatMap settingLine ++ tables.flatMap tableLines)

end CallMetrics.Toml
