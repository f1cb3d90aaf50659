import Millrace.Number.Decimal

/-!
# The shortest decimal that reads back

Every real number in an interval around a float is rounded to that float.  `Exact.shortest` looks for the fewest
digits of a decimal in the interval: on the grid of `n` digits, for `n = 1, 2, …`, it tests the two neighbours of
the value, and of two hits it takes the nearer.
-/

namespace Millrace

/-- The reals that are rounded to a float, in quarters of its last place: `low < 4 · mantissa < high`, with the
ends included when the mantissa is even. -/
structure RoundingInterval where
  low : Nat
  high : Nat
  closed : Bool

namespace Exact

/-- The gap below a power of two is half the gap above it, except at the bottom of the range. -/
def interval (x : Exact) : RoundingInterval :=
  let below := if x.mantissa = fractions && decide (-1074 < x.exponent) then 1 else 2
  ⟨4 * x.mantissa - below, 4 * x.mantissa + 2, x.mantissa % 2 = 0⟩

/-- Whether `c · 10 ^ unit` is rounded to the float. -/
def isRoundedFrom (x : Exact) (c : Nat) (unit : Int) : Bool :=
  let i := x.interval
  -- both sides are multiplied by the same powers of two and ten
  let up := Nat.pow 2 (-(x.exponent - 2)).toNat * Nat.pow 10 unit.toNat
  let down := Nat.pow 2 (x.exponent - 2).toNat * Nat.pow 10 (-unit).toNat
  let point := c * up
  if i.closed then i.low * down ≤ point && point ≤ i.high * down
  else i.low * down < point && point < i.high * down

/-- The decimal with `n` digits that is rounded to the float, if one of the value's two neighbours is.
`halfUp` settles which of two equally near neighbours is taken: the upper, or else the even one. -/
def onGrid? (halfUp : Bool) (x : Exact) (n : Nat) : Option Decimal :=
  let (num, den) := x.ratio
  let unit := decimalExponent num den - (n - 1 : Nat)
  let (a, b) := inUnits num den unit
  let c := a / b
  match x.isRoundedFrom c unit, x.isRoundedFrom (c + 1) unit with
  | false, false => none
  | true, false => some (Decimal.ofUnits c unit)
  | false, true => some (Decimal.ofUnits (c + 1) unit)
  | true, true =>
    let twice := 2 * (a % b)
    let up := b < twice || (twice == b && (halfUp || c % 2 == 1))
    some (Decimal.ofUnits (if up then c + 1 else c) unit)

/-- The shortest decimal that reads back as the float; seventeen digits always do. -/
def shortest (halfUp : Bool) (x : Exact) : Decimal :=
  if x.mantissa = 0 then ⟨[0], 0⟩
  else ((List.range' 1 17).findSome? (x.onGrid? halfUp)).getD (x.significant 17) |>.trim

end Exact

/-! ### Formats with the shortest digits -/

/-- A float as a message about source text quotes it. -/
def literalText (x : Float) : String :=
  Layout.write ⟨-4, 16, true, false, 1, "NaN", "inf"⟩ (Exact.shortest true) x

/-- A finite float as a number of a JSON document. -/
def jsonNumberText (x : Float) : String :=
  Layout.write ⟨-5, 16, true, true, 1, "nan", "inf"⟩ (Exact.shortest false) x

/-- A float with all its digits and never an exponent. -/
def plainText (x : Float) : String :=
  Layout.write ⟨-400, 400, false, false, 1, "NaN", "inf"⟩ (Exact.shortest true) x

end Millrace
