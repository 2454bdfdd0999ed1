import CallMetrics.Json.Literal
import CallMetrics.Json.Number
import CallMetrics.Value

/-! Reading JSON text. `read` takes a text that is one JSON value between blanks. A number without
fraction and exponent that fits in 64 bits is an integer; any other number is a double. Literals
that stand for nothing (a surrogate without partner, a number out of range) are `foreign`, so that
a reader of the value may still skip them. -/

namespace CallMetrics.Json
open Text

def isSpace (c : Char) : Bool := c == ' ' || c == '\n' || c == '\t' || c == '\r'

def skipSpace (cs : List Char) : List Char := cs.dropWhile isSpace

def takeDigits (cs : List Char) : List Char × List Char :=
  (cs.takeWhile Char.isDigit, cs.dropWhile Char.isDigit)

def integerValue (negative : Bool) (digits : List Char) : Value :=
  let n := ofDigits digits
  if negative then
    if 0 < n ∧ n ≤ Int64.minValue.toInt.natAbs then .int (-(n : Int))
    else ((realText? true digits [] 0).map Value.real).getD .foreign
  else if n < UInt64.size then .int n
  else ((realText? false digits [] 0).map Value.real).getD .foreign

/-- The digits of a fraction after its point; `none` when there is a point without digits. -/
def readFraction : List Char → Option (Option (List Char) × List Char)
  | '.' :: cs =>
    let (digits, rest) := takeDigits cs
    if digits = [] then none else some (some digits, rest)
  | cs => some (none, cs)

/-- The value of an exponent after its `e`; `none` when there is an `e` without digits. -/
def readExponent : List Char → Option (Option Int × List Char)
  | c :: cs =>
    if c = 'e' ∨ c = 'E' then
      let (negative, cs) := match cs with
        | '+' :: cs => (false, cs)
        | '-' :: cs => (true, cs)
        | cs => (false, cs)
      let (digits, rest) := takeDigits cs
      if digits = [] then none
      else
        let n : Int := ofDigits digits
        some (some (if negative then -n else n), rest)
    else some (none, c :: cs)
  | [] => some (none, [])

def readMagnitude (negative : Bool) (cs : List Char) : Option (Value × List Char) :=
  let (digits, rest) := takeDigits cs
  if digits = [] ∨ (digits.head? = some '0' ∧ digits ≠ ['0']) then none
  else
    match readFraction rest with
    | none => none
    | some (fraction, rest) =>
      match readExponent rest with
      | none => none
      | some (exponent, rest) =>
        if fraction = none ∧ exponent = none then some (integerValue negative digits, rest)
        else
          let text := realText? negative digits (fraction.getD []) (exponent.getD 0)
          some ((text.map Value.real).getD .foreign, rest)

def readNumber : List Char → Option (Value × List Char)
  | '-' :: cs => readMagnitude true cs
  | cs => readMagnitude false cs

def ofLiteral : LiteralText → Value
  | some cs => .text (String.ofList cs)
  | none => .foreign

/-- A record, unless one of its names is a literal that says nothing. -/
def ofMembers (members : List (LiteralText × Value)) : Value :=
  match members.mapM fun e => e.1.map fun cs => (String.ofList cs, e.2) with
  | some members => .record members
  | none => .foreign

mutual

/-- Reads one value. The fuel bounds the number of values and members in the text. -/
def readValue : Nat → List Char → Option (Value × List Char)
  | 0, _ => none
  | fuel + 1, cs =>
    match skipSpace cs with
    | 'n' :: 'u' :: 'l' :: 'l' :: rest => some (.null, rest)
    | 't' :: 'r' :: 'u' :: 'e' :: rest => some (.bool true, rest)
    | 'f' :: 'a' :: 'l' :: 's' :: 'e' :: rest => some (.bool false, rest)
    | '"' :: rest => (readLiteral rest).map fun (text, rest) => (ofLiteral text, rest)
    | '[' :: rest =>
      match skipSpace rest with
      | ']' :: rest => some (.list [], rest)
      | rest => (readItems fuel rest).map fun (items, rest) => (.list items, rest)
    | '{' :: rest =>
      match skipSpace rest with
      | '}' :: rest => some (.record [], rest)
      | rest => (readMembers fuel rest).map fun (members, rest) => (ofMembers members, rest)
    | rest => readNumber rest

def readItems : Nat → List Char → Option (List Value × List Char)
  | 0, _ => none
  | fuel + 1, cs =>
    match readValue fuel cs with
    | none => none
    | some (v, rest) =>
      match skipSpace rest with
      | ']' :: rest => some ([v], rest)
      | ',' :: rest => (readItems fuel rest).map fun (items, rest) => (v :: items, rest)
      | _ => none

def readMembers : Nat → List Char → Option (List (LiteralText × Value) × List Char)
  | 0, _ => none
  | fuel + 1, cs =>
    match skipSpace cs with
    | '"' :: rest =>
      match readLiteral rest with
      | none => none
      | some (name, rest) =>
        match skipSpace rest with
        | ':' :: rest =>
          match readValue fuel rest with
          | none => none
          | some (v, rest) =>
            match skipSpace rest with
            | '}' :: rest => some ([(name, v)], rest)
            | ',' :: rest =>
              (readMembers fuel rest).map fun (members, rest) => ((name, v) :: members, rest)
            | _ => none
        | _ => none
    | _ => none

end

def read (s : String) : Option Value :=
  let cs := s.toList
  match readValue (cs.length + 1) cs with
  | some (v, rest) => if skipSpace rest = [] then some v else none
  | none => none

end CallMetrics.Json
