import CallMetrics.Json.Literal
import CallMetrics.Text.Numeral
import CallMetrics.Value

/-! JSON text of a value: compact, or indented by two spaces with one member a line. Both write
the members of a record in the order they have. -/

namespace CallMetrics.Json
open Text

def joinWith (separator : List Char) : List (List Char) → List Char
  | [] => []
  | [item] => item
  | item :: rest => item ++ separator ++ joinWith separator rest

mutual

def compactChars : Value → List Char
  | .null => ['n', 'u', 'l', 'l']
  | .bool true => ['t', 'r', 'u', 'e']
  | .bool false => ['f', 'a', 'l', 's', 'e']
  | .int n => intChars n
  | .real digits => digits.toList
  | .text s => literalChars s
  | .list items => '[' :: (joinWith [','] (compactItems items) ++ [']'])
  | .record members => '{' :: (joinWith [','] (compactMembers members) ++ ['}'])
  | .foreign => ['n', 'u', 'l', 'l']

def compactItems : List Value → List (List Char)
  | [] => []
  | v :: rest => compactChars v :: compactItems rest

def compactMembers : List (String × Value) → List (List Char)
  | [] => []
  | (name, v) :: rest => (literalChars name ++ ':' :: compactChars v) :: compactMembers rest

end

def indent (depth : Nat) : List Char := List.replicate (2 * depth) ' '

/-- A bracketed block with one item a line; an empty one stays on its line. -/
def block (depth : Nat) (opening closing : Char) (items : List (List Char)) : List Char :=
  match items with
  | [] => [opening, closing]
  | _ =>
    opening :: '\n' :: (joinWith [',', '\n'] (items.map (indent (depth + 1) ++ ·)) ++
      '\n' :: (indent depth ++ [closing]))

mutual

def prettyChars (depth : Nat) : Value → List Char
  | .list items => block depth '[' ']' (prettyItems (depth + 1) items)
  | .record members => block depth '{' '}' (prettyMembers (depth + 1) members)
  | .null => compactChars .null
  | .bool b => compactChars (.bool b)
  | .int n => compactChars (.int n)
  | .real digits => compactChars (.real digits)
  | .text s => compactChars (.text s)
  | .foreign => compactChars .foreign

def prettyItems (depth : Nat) : List Value → List (List Char)
  | [] => []
  | v :: rest => prettyChars depth v :: prettyItems depth rest

def prettyMembers (depth : Nat) : List (String × Value) → List (List Char)
  | [] => []
  | (name, v) :: rest =>
    (literalChars name ++ ':' :: ' ' :: prettyChars depth v) :: prettyMembers depth rest

end

def compact (v : Value) : String := String.ofList (compactChars v)

def pretty (v : Value) : String := String.ofList (prettyChars 0 v)

def compactLine (v : Value) : String := compact v ++ "\n"

def prettyLines (v : Value) : String := pretty v ++ "\n"

end CallMetrics.Json
