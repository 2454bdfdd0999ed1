import CallMetrics.Json.Literal
import CallMetrics.Text.Numeral

/-! Numbers of TOML. Digits may be grouped by underscores, each of which stands between two digits. A
float is checked in full. Of an integer only the first group and what stands beside underscores is
checked, where hexadecimal digits count as well; it has a value if there is nothing but digits in it
besides the underscores. -/

namespace CallMetrics.Toml
open Text

inductive Number
  | integer (n : Int)
  /-- A number that is no integer, or that has no value. -/
  | other
  deriving DecidableEq, Repr

/-- Whether each underscore stands between two digits. -/
def grouped (isDigit : Char → Bool) : List Char → Bool
  | [] => true
  | '_' :: _ => false
  | c :: '_' :: d :: rest => isDigit c && isDigit d && grouped isDigit (d :: rest)
  | _ :: rest => grouped isDigit rest

def ungrouped (cs : List Char) : List Char := cs.filter (· != '_')

def isHexDigit (c : Char) : Bool := (Json.hexValue? c).isSome

def digitBelow (base : Nat) (c : Char) : Bool := ((Json.hexValue? c).getD base) < base

def ofDigitsIn (base : Nat) (digits : List Char) : Nat :=
  digits.foldl (fun n c => n * base + (Json.hexValue? c).getD 0) 0

def isGroupChar (c : Char) : Bool := c.isDigit || c == '_'

/-- What follows a run with at least one digit. A run of more than one digit may be required not to
begin with a zero. -/
def afterDigits? (leadingZero : Bool) (cs : List Char) : Option (List Char) :=
  let count := (cs.takeWhile isGroupChar).countP Char.isDigit
  if count = 0 ∨ (1 < count ∧ !leadingZero ∧ cs.head? = some '0') then none
  else some (cs.dropWhile isGroupChar)

/-- What follows an exponent, which may be absent. -/
def afterExponent? : List Char → Option (List Char)
  | [] => some []
  | c :: rest =>
    if c = 'e' ∨ c = 'E' then
      afterDigits? true (match rest with
        | '+' :: digits | '-' :: digits => digits
        | digits => digits)
    else some (c :: rest)

def isFloat (cs : List Char) : Bool :=
  let afterPoint : List Char → Option (List Char)
    | '.' :: rest => afterDigits? true rest
    | rest => some rest
  ((afterDigits? false cs).bind afterPoint).bind afterExponent? == some []

namespace Number

def ofBase? (base : Nat) (cs : List Char) : Option Number :=
  if cs.all (fun c => c == '_' || digitBelow base c) && grouped isHexDigit cs then
    match ungrouped cs with
    | [] => some other
    | digits => some (integer (ofDigitsIn base digits))
  else none

/-- Whether this is a zero, or digits without a zero in front that end here or go on in groups. -/
def isInteger (cs : List Char) : Bool :=
  let rest := cs.dropWhile Char.isDigit
  cs == ['0'] ||
    (cs.head?.any (fun c => c.isDigit && c != '0') && (rest == [] || rest.head? == some '_') &&
      !rest.contains ' ' && grouped isHexDigit cs)

def ofDecimal? (negative : Bool) (cs : List Char) : Option Number :=
  if cs = ['i', 'n', 'f'] ∨ cs = ['n', 'a', 'n'] then some other
  else if cs.any ['.', 'e', 'E'].contains then
    if isFloat cs && grouped Char.isDigit cs then some other else none
  else if isInteger cs then
    let digits := ungrouped cs
    if !digits.all Char.isDigit then some other
    else some (integer (if negative then -(ofDigits digits : Int) else ofDigits digits))
  else none

def read? : List Char → Option Number
  | '0' :: 'x' :: digits => ofBase? 16 digits
  | '0' :: 'o' :: digits => ofBase? 8 digits
  | '0' :: 'b' :: digits => ofBase? 2 digits
  | '+' :: cs => ofDecimal? false cs
  | '-' :: cs => ofDecimal? true cs
  | cs => ofDecimal? false cs

end Number
end CallMetrics.Toml
