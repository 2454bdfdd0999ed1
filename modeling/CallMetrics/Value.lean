import CallMetrics.Dict

/-! Documents as data: what a JSON or TOML text says. Members of a record keep the order and the
repetitions of the text; `arranged` sorts them, the last of several with one name counting. -/

namespace CallMetrics

inductive Value where
  | null
  | bool (b : Bool)
  | int (n : Int)
  /-- A number that is no integer, as the text it is written with. -/
  | real (digits : String)
  | text (s : String)
  | list (items : List Value)
  | record (members : List (String × Value))
  /-- A well-formed literal that stands for none of the above. -/
  | foreign
  deriving Inhabited

/-- Members of a log record or of a written object, by name. -/
abbrev Fields := Dict Value

namespace Value

def ofDict (fields : Dict Value) : Value := record fields.entries

def ofTexts (texts : Dict String) : Value := record (texts.entries.map fun e => (e.1, text e.2))

def ofNat (n : Nat) : Value := int n

/-- The value under a name, the first one if there are several. -/
def member? (name : String) : Value → Option Value
  | record members => Dict.find? name members
  | _ => none

mutual

def arranged : Value → Value
  | list items => list (arrangeItems items)
  | record members => record (Dict.ofList (arrangeMembers members)).entries
  | null => null
  | bool b => bool b
  | int n => int n
  | real digits => real digits
  | text s => text s
  | foreign => foreign

def arrangeItems : List Value → List Value
  | [] => []
  | v :: rest => arranged v :: arrangeItems rest

def arrangeMembers : List (String × Value) → List (String × Value)
  | [] => []
  | (name, v) :: rest => (name, arranged v) :: arrangeMembers rest

end

end Value
end CallMetrics
