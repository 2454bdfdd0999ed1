import CallMetrics.Decimal.Shortest
import CallMetrics.Text.Numeral

/-! Numbers with a fraction or an exponent. Such a number is a double, and is kept as the text it
is written with: the fewest digits that read back, positional for moderate exponents and always
with a mark that it is no integer. -/

namespace CallMetrics.Json
open Decimal Text

/-- Positional from `1e-5` up to sixteen places before the point, otherwise `d.ddde±x`, with the sign
of the exponent in any case. -/
def layout (digits : List Char) (exponent : Int) : List Char :=
  let point := (digits.length : Int) + exponent
  if 0 ≤ exponent ∧ point ≤ 16 then
    digits ++ List.replicate exponent.toNat '0' ++ ['.', '0']
  else if 0 < point ∧ point ≤ 16 then
    digits.take point.toNat ++ '.' :: digits.drop point.toNat
  else if -5 < point ∧ point ≤ 0 then
    ['0', '.'] ++ List.replicate (-point).toNat '0' ++ digits
  else
    let lead := match digits with
      | [] => []
      | [d] => [d]
      | d :: rest => d :: '.' :: rest
    lead ++ 'e' :: ((if point ≤ 0 then [] else ['+']) ++ intChars (point - 1))

def doubleChars (bits : Nat) : List Char :=
  let sign := if bits >>> 63 = 0 then [] else ['-']
  let magnitude := bits % (1 <<< 63)
  if magnitude = 0 then sign ++ ['0', '.', '0']
  else
    let (digits, exponent) := (Dyadic.ofBits magnitude).shortest.stripped
    sign ++ layout digits exponent

/-- The digits before the point, then those after it, as a number of 64 bits and a power of ten.
Digits that no longer fit move the exponent if they stand before the point and are dropped after
it. -/
structure Significand where
  value : Nat
  exponent : Int

def Significand.add (afterPoint : Bool) (s : Significand × Bool) (c : Char) : Significand × Bool :=
  let next := s.1.value * 10 + (c.toNat - 48)
  let full := s.2 || UInt64.size ≤ next
  if full then (⟨s.1.value, if afterPoint then s.1.exponent else s.1.exponent + 1⟩, true)
  else (⟨next, if afterPoint then s.1.exponent - 1 else s.1.exponent⟩, false)

def Significand.ofDigits (whole fraction : List Char) : Significand :=
  let before := whole.foldl (Significand.add false) (⟨0, 0⟩, false)
  (fraction.foldl (Significand.add true) (before.1, false)).1

def power (exponent : Nat) : Float := Float.ofScientific 1 false exponent

/-- `x / 10 ^ exponent`, in steps that stay within the range of powers of ten. Four steps bring
every double to zero. -/
def divide : Nat → Float → Nat → Float
  | 0, _, _ => 0
  | steps + 1, x, exponent =>
    if exponent ≤ 308 then x / power exponent else divide steps (x / power 308) (exponent - 308)

/-- `x * 10 ^ exponent`, or `none` when it is too large. -/
def scale (x : Float) (exponent : Int) : Option Float :=
  let scaled :=
    if exponent < 0 then divide 4 x (-exponent).toNat
    else if exponent ≤ 308 then x * power exponent.toNat
    else if x == 0 then x
    else 1 / 0
  if scaled.isInf then none else some scaled

/-- The text of the double that a decimal denotes, or `none` when it is out of range. -/
def realText? (negative : Bool) (whole fraction : List Char) (exponent : Int) : Option String :=
  let s := Significand.ofDigits whole fraction
  (scale (UInt64.ofNat s.value).toFloat (s.exponent + exponent)).map fun x =>
    let signed := if negative then -x else x
    String.ofList (doubleChars signed.toBits.toNat)

end CallMetrics.Json
