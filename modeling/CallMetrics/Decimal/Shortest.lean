/-! The fewest decimal digits that read back as a given double. A positive double is `m * 2 ^ q`;
the reals that round to it form an interval, closed when `m` is even. On the grid of `n`-digit
decimals only the two neighbours of the value can be the nearest ones in the interval, and the
coarsest grid with a hit gives the digits. -/

namespace CallMetrics.Decimal

/-- A positive number `digits * 10 ^ exponent`. -/
structure Scientific where
  digits : Nat
  exponent : Int
  deriving DecidableEq, Repr

/-- A positive double `mantissa * 2 ^ exponent`; `narrow` when the gap below it is half the gap
above it. -/
structure Dyadic where
  mantissa : Nat
  exponent : Int
  narrow : Bool
  deriving DecidableEq, Repr

namespace Dyadic

/-- The positive finite double with the given 63 lower bits. -/
def ofBits (bits : Nat) : Dyadic :=
  let fraction : Nat := bits % (1 <<< 52)
  let biased : Nat := (bits >>> 52) % (1 <<< 11)
  if biased = 0 then ⟨fraction, -1074, false⟩
  else ⟨(1 <<< 52) + fraction, (biased : Int) - 1075, fraction == 0 && biased != 1⟩

def magnitude (x : Dyadic) : Int :=
  let scaled := ((x.mantissa * Nat.pow 10 400) <<< (x.exponent + 1074).toNat) >>> 1074
  ((Nat.toDigits 10 scaled).length : Int) - 401

/-- The best decimal with `n` digits that reads back as the number, if there is one. All
comparisons are between integers in units of a quarter of the last binary place, cleared of
denominators. -/
def onGrid? (x : Dyadic) (n : Nat) : Option Scientific :=
  let k := x.magnitude - (n - 1 : Nat)
  let unit := Nat.pow 10 k.toNat <<< (2 - x.exponent).toNat
  let scale := Nat.pow 10 (-k).toNat <<< (x.exponent - 2).toNat
  let value := 4 * x.mantissa * scale
  let low := (4 * x.mantissa - if x.narrow then 1 else 2) * scale
  let high := (4 * x.mantissa + 2) * scale
  let inside (c : Nat) : Bool :=
    if x.mantissa % 2 = 0 then low ≤ c * unit && c * unit ≤ high
    else low < c * unit && c * unit < high
  let below := value / unit
  let above := below + 1
  let belowFirst := value - below * unit < above * unit - value ||
    (value - below * unit == above * unit - value && below % 2 == 0)
  let order := if belowFirst then [below, above] else [above, below]
  (order.find? inside).map fun c => ⟨c, k⟩

/-- The shortest decimal that reads back as the number; seventeen digits always do. -/
def shortest (x : Dyadic) : Scientific :=
  ((List.range 17).findSome? fun n => x.onGrid? (n + 1)).getD ⟨x.mantissa, 0⟩

end Dyadic

def Scientific.stripped (x : Scientific) : List Char × Int :=
  let all := (Nat.toDigits 10 x.digits).reverse
  let kept := all.dropWhile (· == '0')
  (kept.reverse, x.exponent + (all.length - kept.length : Nat))

end CallMetrics.Decimal
